/-
# Gossip arrives once and in order

Members of a hub publish, subscribe and receive in any order.  What a broadcast channel has to do
for that is put in terms of the envelopes that a place has yet to receive.  One turn of a receiver
passes one of them, so that what it returned and the messages it has yet to pass stay what is due
to it: the messages that the others published since it subscribed.
-/
import Mathlib.Data.List.Forall2
import WorkLedger.Gossip.Hub
import WorkLedger.Proofs.Gossip.Lossless

namespace WorkLedger

/-- The message that a member gets from an envelope, if any. -/
def Envelope.messageFor? (member : String) (e : Envelope) : Option Message :=
  if e.publisher = member then none else (Message.ofBody e.channel e.body).toOption

/-- The message that is returned, if any. -/
def Delivery.messages : Delivery → List Message
  | .message m => [m]
  | .pending => []
  | .closed => []

namespace Broadcast

variable {Channel Place : Type} {b : Broadcast Channel Place} {capacity : Nat}
  {Unread : Channel → Place → List Envelope → Prop} {c : Channel} {r : Receiver Place}
  {l : List Envelope} {e : Envelope}

/-! ## Channels that deliver -/

/-- What a broadcast channel promises.  A new place has no envelope to receive, and one more for
each that is sent; as long as it is no more than the capacity behind, a look finds the oldest of
them and passes it. -/
structure Delivers (b : Broadcast Channel Place) (capacity : Nat)
    (Unread : Channel → Place → List Envelope → Prop) : Prop where
  subscribe : ∀ c, Unread c (b.subscribe c) []
  send : ∀ {c p l} (e : Envelope), Unread c p l → Unread (b.send c e) p (l ++ [e])
  look_nil : ∀ {c p}, Unread c p [] →
    ((b.look c p).1 = .empty ∨ (b.look c p).1 = .closed) ∧ Unread c (b.look c p).2 []
  look_cons : ∀ {c p e l}, Unread c p (e :: l) → l.length < capacity →
    (b.look c p).1 = .envelope e ∧ Unread c (b.look c p).2 l
  length : ∀ {c p l}, Unread c p l → b.length c p = l.length

/-! ## A receiver -/

theorem Delivers.turn_nil (h : b.Delivers capacity Unread) (hr : Unread c r.place []) :
    ∃ d place, b.turn c r = (some d, ⟨r.member, place⟩) ∧ d.messages = [] ∧ Unread c place [] := by
  obtain ⟨hfound, hplace⟩ := h.look_nil hr
  rcases hlook : b.look c r.place with ⟨found, place⟩
  rw [hlook] at hfound hplace
  obtain rfl | rfl : found = .empty ∨ found = .closed := hfound
  · exact ⟨.pending, place, by rw [turn, hlook], rfl, hplace⟩
  · exact ⟨.closed, place, by rw [turn, hlook], rfl, hplace⟩

theorem Delivers.turn_cons (h : b.Delivers capacity Unread) (hr : Unread c r.place (e :: l))
    (hl : l.length < capacity) : ∃ place,
      b.turn c r = ((e.messageFor? r.member).map .message, ⟨r.member, place⟩) ∧
      Unread c place l := by
  obtain ⟨hfound, hplace⟩ := h.look_cons hr hl
  refine ⟨(b.look c r.place).2, ?_, hplace⟩
  rw [turn, ← Prod.eta (b.look c r.place), hfound, Envelope.messageFor?]
  dsimp only
  split
  · rfl
  · cases Message.ofBody e.channel e.body <;> rfl

/-- A call passes envelopes until one of them has a message for the member; it comes to nothing
only if there is none, or for lack of turns. -/
theorem Delivers.receive (h : b.Delivers capacity Unread) (turns : Nat)
    (hr : Unread c r.place l) (hl : l.length ≤ capacity) : ∃ d place rest,
      b.receive c turns r = (d, ⟨r.member, place⟩) ∧ Unread c place rest ∧
      l.filterMap (Envelope.messageFor? r.member) =
        d.messages ++ rest.filterMap (Envelope.messageFor? r.member) ∧
      rest.length ≤ l.length ∧ (l.length < turns → d.messages = [] → rest = []) := by
  induction turns generalizing r l with
  | zero => exact ⟨.pending, r.place, l, rfl, hr, rfl, Nat.le_refl _, nofun⟩
  | succ turns ih =>
      cases l with
      | nil =>
          obtain ⟨d, place, hturn, hd, hplace⟩ := h.turn_nil hr
          refine ⟨d, place, [], ?_, hplace, ?_, Nat.le_refl _, fun _ _ => rfl⟩
          · rw [Broadcast.receive, hturn]
          · rw [hd, List.nil_append]
      | cons e l =>
          rw [List.length_cons] at hl
          obtain ⟨place, hturn, hplace⟩ := h.turn_cons hr hl
          cases hmessage : e.messageFor? r.member with
          | some m =>
              rw [hmessage] at hturn
              refine ⟨.message m, place, l, ?_, hplace, ?_, Nat.le_succ _, fun _ => nofun⟩
              · rw [Broadcast.receive, hturn]
                rfl
              · rw [List.filterMap_cons_some hmessage]
                rfl
          | none =>
              rw [hmessage] at hturn
              obtain ⟨d, place', rest, hreceive, hplace', hfilter, hlength, hdone⟩ :=
                ih (r := ⟨r.member, place⟩) hplace (Nat.le_of_lt hl)
              refine ⟨d, place', rest, ?_, hplace', ?_, Nat.le_succ_of_le hlength, ?_⟩
              · rw [Broadcast.receive, hturn]
                exact hreceive
              · rw [List.filterMap_cons_none hmessage]
                exact hfilter
              · exact fun hturns => hdone (Nat.lt_of_succ_lt_succ hturns)

/-- Calls without end return every message, and nothing else. -/
theorem Delivers.drain (h : b.Delivers capacity Unread) {calls : Nat}
    (hr : Unread c r.place l) (hl : l.length ≤ capacity)
    (hcalls : (l.filterMap (Envelope.messageFor? r.member)).length ≤ calls) :
    (b.drain c calls r).1 = l.filterMap (Envelope.messageFor? r.member) := by
  induction calls generalizing r l with
  | zero => exact (List.length_eq_zero_iff.mp (Nat.le_zero.mp hcalls)).symm
  | succ calls ih =>
      obtain ⟨d, place, rest, hnext, hplace, hfilter, hlength, hdone⟩ :=
        h.receive (b.length c r.place + 1) hr hl
      rw [h.length hr] at hnext hdone
      have hnext' : b.next c r = (d, ⟨r.member, place⟩) := by rw [next, h.length hr, hnext]
      rw [hfilter] at hcalls ⊢
      have hnone : d.messages = [] →
          d.messages ++ rest.filterMap (Envelope.messageFor? r.member) = [] := by
        intro hd
        rw [hd, hdone (Nat.lt_succ_self _) hd]
        rfl
      rw [Broadcast.drain, hnext']
      cases d with
      | message m =>
          have hrest := ih (r := ⟨r.member, place⟩) hplace (Nat.le_trans hlength hl)
            (Nat.le_of_succ_le_succ hcalls)
          exact congrArg (m :: ·) hrest
      | pending => exact (hnone rfl).symm
      | closed => exact (hnone rfl).symm

/-! ## Exchanges -/

/-- What the members of a hub do. -/
inductive Action (M : Type) where
  | broadcast (sender : M) (m : Message)
  | subscribe (member : M)
  /-- A call of the receiver with this number.  It goes on for so many turns; if it has not
  returned by then, the next call goes on where it stopped. -/
  | receive (number turns : Nat)

/-- A receiver of a member and what it returned. -/
structure Seat (M Place : Type) where
  owner : M
  receiver : Receiver Place
  returned : List Message

/-- A channel and its receivers, in the order of their subscription. -/
structure Exchange (M Channel Place : Type) where
  channel : Channel
  seats : List (Seat M Place)

section

variable {M : Type}

/-- A call. -/
def call (b : Broadcast Channel Place) (c : Channel) (turns : Nat) (seat : Seat M Place) :
    Seat M Place :=
  let (d, receiver) := b.receive c turns seat.receiver
  { seat with receiver, returned := seat.returned ++ d.messages }

/-- What calls without end would return, if nobody went on publishing. -/
def toCome (b : Broadcast Channel Place) (c : Channel) (r : Receiver Place) : List Message :=
  (b.drain c (b.length c r.place) r).1

def step (b : Broadcast Channel Place) (name : M → String) (s : Exchange M Channel Place) :
    Action M → Exchange M Channel Place
  | .broadcast i m => { s with channel := b.publish s.channel (name i) m }
  | .subscribe i => { s with seats := s.seats ++ [⟨i, b.receiver s.channel (name i), []⟩] }
  | .receive number turns => { s with seats := s.seats.modify number (b.call s.channel turns) }

/-- An exchange on a channel that nobody has subscribed to. -/
def run (b : Broadcast Channel Place) (name : M → String) (c : Channel)
    (actions : List (Action M)) : Exchange M Channel Place :=
  actions.foldl (b.step name) ⟨c, []⟩

/-- The message that is published for a member, if any: nobody publishes for himself. -/
def Action.messageFor? [DecidableEq M] (i : M) : Action M → Option Message
  | .broadcast j m => if j = i then none else some m
  | .subscribe _ => none
  | .receive _ _ => none

/-- What is due to each receiver: the messages that others published since it subscribed. -/
def due [DecidableEq M] : List (Action M) → List (M × List Message)
  | [] => []
  | .subscribe i :: rest => (i, rest.filterMap (Action.messageFor? i)) :: due rest
  | .broadcast _ _ :: rest => due rest
  | .receive _ _ :: rest => due rest

/-- A receiver that holds what is due to its owner, in part returned and in part unread. -/
structure Settled (Unread : Channel → Place → List Envelope → Prop) (name : M → String)
    (c : Channel) (seat : Seat M Place) (d : M × List Message) : Prop where
  owner : seat.owner = d.1
  member : seat.receiver.member = name d.1
  exists_unread : ∃ l, Unread c seat.receiver.place l ∧
    seat.returned ++ l.filterMap (Envelope.messageFor? (name d.1)) = d.2

variable {name : M → String} {seat : Seat M Place} {d : M × List Message} {i : M} {m : Message}

theorem Delivers.settled_receiver (h : b.Delivers capacity Unread) (name : M → String)
    (c : Channel) (i : M) : Settled Unread name c ⟨i, b.receiver c (name i), []⟩ (i, []) :=
  ⟨rfl, rfl, [], h.subscribe c, rfl⟩

theorem Delivers.settled_publish [DecidableEq M] (h : b.Delivers capacity Unread)
    (hname : Function.Injective name) (hsettled : Settled Unread name c seat d)
    (hm : Message.ofBody m.channel m.body = .ok m) :
    Settled Unread name (b.publish c (name i) m) seat
      (d.1, d.2 ++ [Action.broadcast i m].filterMap (Action.messageFor? d.1)) := by
  obtain ⟨l, hunread, hdue⟩ := hsettled.exists_unread
  refine ⟨hsettled.owner, hsettled.member, _, h.send _ hunread, ?_⟩
  have hmessage : Envelope.messageFor? (name d.1) ⟨name i, m.channel, m.body⟩ =
      Action.messageFor? d.1 (.broadcast i m) := by
    by_cases hi : i = d.1
    · rw [Envelope.messageFor?, Action.messageFor?, if_pos hi, if_pos (congrArg name hi)]
    · rw [Envelope.messageFor?, Action.messageFor?, if_neg hi, if_neg (hname.ne hi), hm]
      rfl
  rw [List.filterMap_append, ← List.append_assoc, hdue, List.filterMap_cons, hmessage]
  rfl

theorem Delivers.settled_call (h : b.Delivers capacity Unread)
    (hsettled : Settled Unread name c seat d) (hseat : b.length c seat.receiver.place ≤ capacity)
    (turns : Nat) : Settled Unread name c (b.call c turns seat) d := by
  obtain ⟨l, hunread, hdue⟩ := hsettled.exists_unread
  rw [h.length hunread] at hseat
  obtain ⟨answer, place, rest, hreceive, hplace, hfilter, -, -⟩ := h.receive turns hunread hseat
  rw [hsettled.member] at hreceive hfilter
  rw [call, hreceive]
  refine ⟨hsettled.owner, rfl, rest, hplace, ?_⟩
  rw [List.append_assoc, ← hfilter]
  exact hdue

theorem Delivers.returned_append_toCome (h : b.Delivers capacity Unread)
    (hsettled : Settled Unread name c seat d) (hseat : b.length c seat.receiver.place ≤ capacity) :
    seat.returned ++ b.toCome c seat.receiver = d.2 := by
  obtain ⟨l, hunread, hdue⟩ := hsettled.exists_unread
  rw [h.length hunread] at hseat
  have hdrain := h.drain hunread hseat (List.length_filterMap_le _ l)
  rw [toCome, h.length hunread, hdrain, hsettled.member]
  exact hdue

/-! ## Runs -/

/-- What is due grows with every action, and every subscription adds somebody to it. -/
theorem due_append [DecidableEq M] (taken rest : List (Action M)) : due (taken ++ rest) =
    (due taken).map (fun d => (d.1, d.2 ++ rest.filterMap (Action.messageFor? d.1))) ++
      due rest := by
  induction taken with
  | nil => rfl
  | cons a taken ih =>
      cases a with
      | broadcast j m => exact ih
      | receive number turns => exact ih
      | subscribe i =>
          show (i, (taken ++ rest).filterMap (Action.messageFor? i)) :: due (taken ++ rest) = _
          rw [List.filterMap_append, ih]
          rfl

theorem due_append_subscribe [DecidableEq M] (taken : List (Action M)) (i : M) :
    due (taken ++ [.subscribe i]) = due taken ++ [(i, [])] := by
  simp [due_append, due, Action.messageFor?, List.filterMap_cons]

theorem due_append_receive [DecidableEq M] (taken : List (Action M)) (number turns : Nat) :
    due (taken ++ [.receive number turns]) = due taken := by
  simp [due_append, due, Action.messageFor?, List.filterMap_cons]

/-- Every receiver of an exchange holds what is due, in the order of subscription. -/
def Settles [DecidableEq M] (Unread : Channel → Place → List Envelope → Prop) (name : M → String)
    (s : Exchange M Channel Place) (taken : List (Action M)) : Prop :=
  List.Forall₂ (Settled Unread name s.channel) s.seats (due taken)

/-- No receiver is more than the capacity behind. -/
def KeepsUp (b : Broadcast Channel Place) (capacity : Nat) (s : Exchange M Channel Place) : Prop :=
  ∀ seat ∈ s.seats, b.length s.channel seat.receiver.place ≤ capacity

variable {s : Exchange M Channel Place}

theorem forall₂_modify {R S : Seat M Place → M × List Message → Prop}
    {f : Seat M Place → Seat M Place} {seats : List (Seat M Place)}
    {dues : List (M × List Message)} (h : List.Forall₂ R seats dues)
    (hkeep : ∀ seat d, R seat d → S seat d) (hf : ∀ seat d, R seat d → S (f seat) d)
    (number : Nat) : List.Forall₂ S (seats.modify number f) dues := by
  induction h generalizing number with
  | nil =>
      rw [List.modify_nil]
      exact .nil
  | cons hhead hrest ih =>
      cases number with
      | zero => exact .cons (hf _ _ hhead) (hrest.imp hkeep)
      | succ number => exact .cons (hkeep _ _ hhead) (ih number)

theorem Settles.with_keepsUp [DecidableEq M] {taken : List (Action M)}
    (h : Settles Unread name s taken) (hs : b.KeepsUp capacity s) :
    List.Forall₂ (fun seat d => Settled Unread name s.channel seat d ∧
      b.length s.channel seat.receiver.place ≤ capacity) s.seats (due taken) := by
  obtain ⟨hlength, hzip⟩ := List.forall₂_iff_zip.mp h
  exact List.forall₂_iff_zip.mpr
    ⟨hlength, fun hmem => ⟨hzip hmem, hs _ (List.of_mem_zip hmem).1⟩⟩

/-- An action does to the receivers what it does to what is due. -/
theorem Delivers.settles_step [DecidableEq M] (h : b.Delivers capacity Unread)
    (hname : Function.Injective name) {taken : List (Action M)} {a : Action M}
    (hsettles : Settles Unread name s taken) (hs : b.KeepsUp capacity s)
    (hread : ∀ i m, a = .broadcast i m → Message.ofBody m.channel m.body = .ok m) :
    Settles Unread name (b.step name s a) (taken ++ [a]) := by
  cases a with
  | broadcast i m =>
      rw [Settles, due_append, due, due, List.append_nil, List.forall₂_map_right_iff]
      exact hsettles.imp fun _ _ hseat => h.settled_publish hname hseat (hread i m rfl)
  | subscribe i =>
      rw [Settles, due_append_subscribe]
      exact List.rel_append hsettles (.cons (h.settled_receiver name s.channel i) .nil)
  | receive number turns =>
      rw [Settles, due_append_receive]
      exact forall₂_modify (hsettles.with_keepsUp hs) (fun _ _ hseat => hseat.1)
        (fun _ _ hseat => h.settled_call hseat.1 hseat.2 turns) number

theorem run_append_singleton (name : M → String) (c : Channel) (taken : List (Action M))
    (a : Action M) : b.run name c (taken ++ [a]) = b.step name (b.run name c taken) a := by
  rw [run, List.foldl_append]
  rfl

/-- Along a run the receivers hold what is due, as long as they keep up. -/
theorem Delivers.settles_run [DecidableEq M] (h : b.Delivers capacity Unread)
    (hname : Function.Injective name) (c : Channel) {actions : List (Action M)}
    (hread : ∀ i m, .broadcast i m ∈ actions → Message.ofBody m.channel m.body = .ok m)
    (hkept : ∀ taken, taken <+: actions → b.KeepsUp capacity (b.run name c taken)) :
    Settles Unread name (b.run name c actions) actions := by
  induction actions using List.reverseRecOn with
  | nil => exact .nil
  | append_singleton taken a ih =>
      have htaken := ih (fun i m hm => hread i m (List.mem_append_left _ hm))
        (fun before hbefore => hkept before (hbefore.trans (List.prefix_append taken [a])))
      rw [run_append_singleton]
      refine h.settles_step hname htaken (hkept taken (List.prefix_append taken [a])) ?_
      rintro i m rfl
      exact hread i m List.mem_concat_self

end

end Broadcast

/-! ## The log of a hub -/

namespace Hub

/-- The entries of the log behind a place. -/
def Unread (h : Hub) (place : Nat) (l : List Envelope) : Prop :=
  place ≤ h.log.size ∧ h.log.toList.drop place = l

theorem Unread.length_add {h : Hub} {place : Nat} {l : List Envelope} (hl : h.Unread place l) :
    l.length + place = h.log.size := by
  obtain ⟨hplace, rfl⟩ := hl
  rw [List.length_drop, Array.length_toList]
  omega

/-- The log is a channel that delivers. -/
theorem delivers : channel.Delivers hubCapacity Unread where
  subscribe h := ⟨Nat.le_refl _, List.drop_eq_nil_of_le (Nat.le_refl _)⟩
  send {h place l} e hl := by
    obtain ⟨hplace, rfl⟩ := hl
    refine ⟨Nat.le_trans hplace (by simp [channel]), ?_⟩
    show (h.log.push e).toList.drop place = _
    rw [Array.toList_push, List.drop_append_of_le_length (by simpa using hplace)]
  look_nil {h place} hl := by
    have hplace : place = h.log.size := by simpa using hl.length_add
    have hlook : h.look place = (if h.publishers = 0 then .closed else .empty, place) := by
      simp [look, hplace]
    show ((h.look place).1 = _ ∨ (h.look place).1 = _) ∧ h.Unread (h.look place).2 []
    rw [hlook]
    refine ⟨?_, hl⟩
    by_cases hpublishers : h.publishers = 0
    · exact .inr (if_pos hpublishers)
    · exact .inl (if_neg hpublishers)
  look_cons {h place e l} hl hcapacity := by
    have hlength := hl.length_add
    obtain ⟨hplace, hdrop⟩ := hl
    rw [List.length_cons] at hlength
    have hkept : ¬ place < h.log.size - hubCapacity := by omega
    have hentry : h.log[place]? = some e := by
      rw [← Array.getElem?_toList, ← List.head?_drop, hdrop, List.head?_cons]
    have hlook : h.look place = (.envelope e, place + 1) := by
      simp only [look, if_neg hkept, hentry]
    show (h.look place).1 = _ ∧ h.Unread (h.look place).2 l
    rw [hlook]
    refine ⟨rfl, by omega, ?_⟩
    rw [← List.tail_drop, hdrop, List.tail_cons]
  length {h place l} hl := by
    show h.log.size - place = l.length
    rw [← hl.length_add, Nat.add_sub_cancel]

/-- An action publishes at most one message. -/
theorem size_foldl_step {M : Type} (name : M → String) (actions : List (Broadcast.Action M))
    (s : Broadcast.Exchange M Hub Nat) : (actions.foldl (channel.step name) s).channel.log.size ≤
      s.channel.log.size + actions.length := by
  induction actions generalizing s with
  | nil => exact Nat.le_refl _
  | cons a rest ih =>
      have hstep : (channel.step name s a).channel.log.size ≤ s.channel.log.size + 1 := by
        cases a with
        | broadcast i m => exact (Array.size_push _).le
        | subscribe i => exact Nat.le_succ _
        | receive number turns => exact Nat.le_succ _
      have hrest := ih (channel.step name s a)
      rw [List.foldl_cons, List.length_cons]
      omega

/-- On a new hub nobody falls behind in no more actions than the capacity. -/
theorem keepsUp_run {M : Type} (name : M → String) {actions : List (Broadcast.Action M)}
    (h : actions.length ≤ hubCapacity) :
    channel.KeepsUp hubCapacity (channel.run name new actions) := by
  intro seat _
  have hsize : (channel.run name new actions).channel.log.size ≤ 0 + actions.length :=
    size_foldl_step name actions ⟨new, []⟩
  show (channel.run name new actions).channel.log.size - seat.receiver.place ≤ hubCapacity
  omega

end Hub

/-! ## Delivery -/

namespace Broadcast

/-- Gossip neither loses, nor repeats, nor reorders.

Members with names of their own share a channel that delivers.  They publish messages without
floats whose texts nest at most 127 levels, subscribe and receive in any order, and no receiver is
ever more than the capacity of a hub behind.  Then at any time what a receiver returned and what it
would still return are the messages that the other members published since it subscribed: each of
them once, in the order of publication, as it was published, and none of its own member.  The
integers of account data are those of 64 bits; a text has no others. -/
theorem delivers_each_once {Channel Place M : Type} [DecidableEq M]
    {b : Broadcast Channel Place} {Unread : Channel → Place → List Envelope → Prop}
    {name : M → String} (h : b.Delivers hubCapacity Unread) (hname : Function.Injective name)
    (c : Channel) (actions : List (Action M))
    (hplain : ∀ i m, .broadcast i m ∈ actions →
      (∀ fields ∈ m.accountData, fields.toJson.floatFree = true ∧ fields.toJson.inRange = true) ∧
        m.content.nesting ≤ 127)
    (hkept : ∀ taken, taken <+: actions → b.KeepsUp hubCapacity (b.run name c taken)) :
    let s := b.run name c actions
    s.seats.map (fun seat =>
      (seat.owner, seat.returned ++ b.toCome s.channel seat.receiver)) = due actions := by
  intro s
  have hread : ∀ i m, .broadcast i m ∈ actions → Message.ofBody m.channel m.body = .ok m := by
    intro i m hm
    obtain ⟨hdata, hdepth⟩ := hplain i m hm
    exact Message.ofBody_of_plain
      (fun fields hfields => ⟨(hdata fields hfields).1, (hdata fields hfields).2⟩) hdepth
  have hsettles := h.settles_run hname c hread hkept
  have hkeepsUp := hkept actions List.prefix_rfl
  rw [← List.forall₂_eq_eq_eq, List.forall₂_map_left_iff]
  exact (hsettles.with_keepsUp hkeepsUp).imp fun _ _ hseat =>
    Prod.ext hseat.1.owner (h.returned_append_toCome hseat.1 hseat.2)

/-- Two members, one of them with two receivers: what is published before a subscription is not
due, and neither is what a member publishes itself. -/
theorem delivers_each_once_two_members :
    let name : Bool → String := fun i => if i then "ada" else "bea"
    let t : Message := .transaction ⟨"1", "ada", "bea", 5, 5, .transact, none⟩
    let actions : List (Action Bool) := [.broadcast true t, .subscribe true, .subscribe false,
      .broadcast true t, .broadcast false (.block genesis), .receive 1 1, .subscribe false,
      .broadcast true (.block genesis), .receive 0 3, .broadcast true t]
    let s := Hub.channel.run name .new actions
    s.seats.map (fun seat =>
        (seat.owner, seat.returned ++ Hub.channel.toCome s.channel seat.receiver)) =
      [(true, [.block genesis]), (false, [t, .block genesis, t]), (false, [.block genesis, t])] := by
  intro name t actions s
  have hname : Function.Injective name := by decide
  refine delivers_each_once Hub.delivers hname .new actions ?_ ?_
  · intro i m hm
    have hm : m = t ∨ m = .block genesis := by
      simp only [actions, List.mem_cons, List.not_mem_nil, Action.broadcast.injEq, reduceCtorEq,
        false_or, or_false] at hm
      tauto
    obtain rfl | rfl := hm <;> exact ⟨nofun, by decide +kernel⟩
  · intro taken htaken
    refine Hub.keepsUp_run name (Nat.le_trans htaken.length_le ?_)
    decide

end Broadcast

end WorkLedger
