/-
# Messages survive the wire

Records are read as they were written, one field after the other.  Only account data can be
lost: a float may read back as another, and a text that is too deep is not read at all.  Neither
happens to an accepted block, whose account data are those of accounts, and a message that was
read is within both bounds except for its floats.
-/
import WorkLedger.Gossip.Message
import WorkLedger.Proofs.Block.Commitment
import WorkLedger.Proofs.Json.Reading

namespace WorkLedger

/-! ## Fields -/

namespace Json

theorem readText_toJson (s : String) : (readText (toJson s)).toOption = some s := rfl

theorem readU64_toJson (n : UInt64) : (readU64 (toJson n)).toOption = some n := by
  have hread : readU64 (toJson n) = .ok n := readU64_eq_ok.mpr rfl
  rw [hread]
  rfl

theorem readDigest_toJson (d : Digest) : (readDigest (toJson d)).toOption = some d := by
  have hread : readDigest (toJson d) = .ok d :=
    bind_eq_ok.mpr ⟨_, rfl, mapError_eq_ok.mpr d.parse_toHex⟩
  rw [hread]
  rfl

theorem readSignature?_toJson (g : Signature) : readSignature? (toJson g) = some g :=
  g.parse?_toHex

end Json

/-! ## Records -/

theorem Header.ofSource?_ofJson (h : Header) : ofSource? (.ofJson (toJson h)) = some h := by
  obtain ⟨h1, h2, h3, h4, h5, h6, h7, h8⟩ := h.lookup_allMembers
  have hrecord := Source.record?_ofJson h.nodup_allMembers ["parentHash", "beneficiary",
    "difficulty", "number", "timestamp", "transactionsRoot", "stateRoot", "nonce"] 8
  simp only [List.map_cons, List.map_nil, h1, h2, h3, h4, h5, h6, h7, h8, Option.map_some] at hrecord
  show ofSource? (.ofJson (.obj h.allMembers)) = _
  simp only [ofSource?, hrecord, Source.required?_ofJson, Json.readText_toJson, Json.readU64_toJson,
    Json.readDigest_toJson, Option.bind_eq_bind, Option.bind_some, Option.pure_def]

namespace Payload

theorem ofJson?_toJson (d : Payload) : ofJson? (toJson d) = some d := by
  cases d with
  | transact => rfl
  | miningReward => rfl
  | createAccount fields =>
      have hfields : Json.Object.ofMembers fields.members = fields := by
        have hnormal := fields.normal
        simp only [Json.isNormal, Bool.and_eq_true] at hnormal
        exact Json.Object.ext (Json.normalizeMembers_of_isNormal hnormal.1 hnormal.2)
      show some (createAccount (.ofMembers fields.members)) = _
      rw [hfields]

theorem ofSource?_ofJson {depth : Nat} {d : Payload}
    (h : depth + (toJson d).nesting ≤ depthLimit) : ofSource? depth (.ofJson (toJson d)) = some d := by
  rw [ofSource?, Source.nesting_ofJson, if_pos h, Source.json?_ofJson, Option.bind_some,
    ofJson?_toJson]

/-- A payload is read whole, and no deeper than the limit. -/
theorem ofSource?_eq_some {depth : Nat} {s : Source} {d : Payload} :
    ofSource? depth s = some d ↔
      depth + s.nesting ≤ depthLimit ∧ ∃ a, s.json? = some a ∧ ofJson? a = some d := by
  unfold ofSource?
  split
  · rename_i h
    rw [Option.bind_eq_some_iff]
    exact (and_iff_right h).symm
  · rename_i h
    exact ⟨nofun, fun hread => absurd hread.1 h⟩

end Payload

namespace Transaction

/-- The fields that a transaction is read from, one reader each. -/
theorem ofSource?_eq_some {depth : Nat} {s : Source} {t : Transaction} :
    ofSource? depth s = some t ↔ ∃ id sender recipient value gasLimit data signature,
      s.record? ["id", "from", "to", "value", "gasLimit", "data", "signature"] 6 =
        some [id, sender, recipient, value, gasLimit, data, signature] ∧
      Source.required? (·.readText.toOption) id = some t.id ∧
      Source.required? (·.readText.toOption) sender = some t.sender ∧
      Source.required? (·.readText.toOption) recipient = some t.recipient ∧
      Source.required? (·.readU64.toOption) value = some t.value ∧
      Source.required? (·.readU64.toOption) gasLimit = some t.gasLimit ∧
      data.bind (Payload.ofSource? (depth + 1)) = some t.data ∧
      Source.optional? Json.readSignature? signature = some t.signature := by
  constructor
  · intro h
    obtain ⟨fields, hrecord, h⟩ := Option.bind_eq_some_iff.mp h
    split at h
    · obtain ⟨_, hid, h⟩ := Option.bind_eq_some_iff.mp h
      obtain ⟨_, hsender, h⟩ := Option.bind_eq_some_iff.mp h
      obtain ⟨_, hrecipient, h⟩ := Option.bind_eq_some_iff.mp h
      obtain ⟨_, hvalue, h⟩ := Option.bind_eq_some_iff.mp h
      obtain ⟨_, hgasLimit, h⟩ := Option.bind_eq_some_iff.mp h
      obtain ⟨_, hdata, h⟩ := Option.bind_eq_some_iff.mp h
      obtain ⟨_, hsignature, h⟩ := Option.bind_eq_some_iff.mp h
      cases h
      exact ⟨_, _, _, _, _, _, _, hrecord, hid, hsender, hrecipient, hvalue, hgasLimit, hdata,
        hsignature⟩
    · exact nomatch h
  · rintro ⟨id, sender, recipient, value, gasLimit, data, signature, hrecord, hid, hsender,
      hrecipient, hvalue, hgasLimit, hdata, hsignature⟩
    refine Option.bind_eq_some_iff.mpr ⟨_, hrecord, ?_⟩
    refine Option.bind_eq_some_iff.mpr ⟨_, hid, ?_⟩
    refine Option.bind_eq_some_iff.mpr ⟨_, hsender, ?_⟩
    refine Option.bind_eq_some_iff.mpr ⟨_, hrecipient, ?_⟩
    refine Option.bind_eq_some_iff.mpr ⟨_, hvalue, ?_⟩
    refine Option.bind_eq_some_iff.mpr ⟨_, hgasLimit, ?_⟩
    refine Option.bind_eq_some_iff.mpr ⟨_, hdata, ?_⟩
    exact Option.bind_eq_some_iff.mpr ⟨_, hsignature, rfl⟩

theorem nesting_toJson (t : Transaction) :
    (toJson t).nesting = (toJson t.data).nesting + 1 := by
  have htext : ∀ s : String, (Json.str s).nesting = 0 := fun _ => rfl
  have hcount : ∀ n : UInt64, (toJson n).nesting = 0 := fun _ => rfl
  have hsignature : ∀ g : Signature, (toJson g).nesting = 0 := fun _ => rfl
  show Json.nestingMembers t.members + 1 = _
  unfold members
  cases t.signature <;>
    simp only [List.cons_append, List.nil_append, Json.nestingMembers, htext, hcount, hsignature,
      Nat.zero_max, Nat.max_zero]

theorem ofSource?_ofJson {depth : Nat} {t : Transaction}
    (h : depth + (toJson t).nesting ≤ depthLimit) :
    ofSource? depth (.ofJson (toJson t)) = some t := by
  obtain ⟨h1, h2, h3, h4, h5, h6, h7⟩ := t.lookup_members
  have hrecord := Source.record?_ofJson t.nodup_members ["id", "from", "to", "value", "gasLimit",
    "data", "signature"] 6
  simp only [List.map_cons, List.map_nil, h1, h2, h3, h4, h5, h6, h7, Option.map_some] at hrecord
  have htext : ∀ s : String,
      Source.required? (·.readText.toOption) (some (.ofJson (toJson s))) = some s := fun s =>
    (Source.required?_ofJson _ _).trans (Json.readText_toJson s)
  have hcount : ∀ n : UInt64,
      Source.required? (·.readU64.toOption) (some (.ofJson (toJson n))) = some n := fun n =>
    (Source.required?_ofJson _ _).trans (Json.readU64_toJson n)
  have hdepth : depth + 1 + (toJson t.data).nesting ≤ depthLimit := by
    rw [nesting_toJson] at h
    omega
  have hdata : Payload.ofSource? (depth + 1) (.ofJson (toJson t.data)) = some t.data :=
    Payload.ofSource?_ofJson hdepth
  have hsignature : Source.optional? Json.readSignature?
      ((t.signature.map toJson).map Source.ofJson) = some t.signature := by
    cases t.signature with
    | none => rfl
    | some g =>
        show ((Source.ofJson (toJson g)).json?.bind _).map some = _
        rw [Source.json?_ofJson, Option.bind_some, Json.readSignature?_toJson, Option.map_some]
  exact ofSource?_eq_some.mpr ⟨_, _, _, _, _, _, _, hrecord, htext _, htext _, htext _, hcount _,
    hcount _, hdata, hsignature⟩

end Transaction

namespace Block

/-- A block is read from a header and an array of transactions. -/
theorem ofSource?_eq_some {depth : Nat} {s : Source} {b : Block} :
    ofSource? depth s = some b ↔ ∃ header items,
      s.record? ["header", "transactionSeries"] 2 = some [header, some (.arr items)] ∧
      header.bind Header.ofSource? = some b.header ∧
      items.mapM (Transaction.ofSource? (depth + 2)) = some b.transactions := by
  constructor
  · intro h
    obtain ⟨fields, hrecord, h⟩ := Option.bind_eq_some_iff.mp h
    split at h
    · obtain ⟨_, hheader, h⟩ := Option.bind_eq_some_iff.mp h
      split at h
      · obtain ⟨_, hseries, h⟩ := Option.bind_eq_some_iff.mp h
        cases h
        exact ⟨_, _, hrecord, hheader, hseries⟩
      · exact nomatch h
    · exact nomatch h
  · rintro ⟨header, items, hrecord, hheader, hseries⟩
    refine Option.bind_eq_some_iff.mpr ⟨_, hrecord, ?_⟩
    refine Option.bind_eq_some_iff.mpr ⟨_, hheader, ?_⟩
    exact Option.bind_eq_some_iff.mpr ⟨_, hseries, rfl⟩

theorem nesting_toJson (b : Block) : (toJson b).nesting =
    max 1 (Json.nestingItems (b.transactions.map toJson) + 1) + 1 := by
  have hheader : (toJson b.header).nesting = 1 := rfl
  show max (toJson b.header).nesting
    (max (Json.nestingItems (b.transactions.map toJson) + 1) 0) + 1 = _
  rw [hheader, Nat.max_zero]

theorem ofSource?_ofJson {depth : Nat} {b : Block}
    (h : depth + (toJson b).nesting ≤ depthLimit) :
    ofSource? depth (.ofJson (toJson b)) = some b := by
  have hdepth : ∀ t ∈ b.transactions, depth + 2 + (toJson t).nesting ≤ depthLimit := by
    intro t ht
    have hle := Json.nestingItems_le.mp (Nat.le_refl _) (toJson t) (List.mem_map_of_mem ht)
    rw [nesting_toJson] at h
    omega
  have hseries : ∀ series : List Transaction,
      (∀ t ∈ series, depth + 2 + (toJson t).nesting ≤ depthLimit) →
      (Source.ofItems (series.map toJson)).mapM (Transaction.ofSource? (depth + 2)) =
        some series := by
    intro series hseries
    induction series with
    | nil => rfl
    | cons t rest ih =>
        rw [List.forall_mem_cons] at hseries
        rw [List.map_cons, Source.ofItems, List.mapM_cons,
          Transaction.ofSource?_ofJson hseries.1, ih hseries.2]
        rfl
  exact ofSource?_eq_some.mpr ⟨_, _, rfl, b.header.ofSource?_ofJson,
    hseries b.transactions hdepth⟩

end Block

/-! ## What a message carries -/

/-- The fields of the account that is published, if it is one. -/
def Payload.fields? : Payload → Option Json.Object
  | .createAccount fields => some fields
  | _ => none

theorem Payload.plain_toJson {d : Payload} (h : ∀ fields, d.fields? = some fields → fields.toJson.Plain) :
    (toJson d).Plain := by
  cases d with
  | transact => exact ⟨rfl, rfl⟩
  | miningReward => exact ⟨rfl, rfl⟩
  | createAccount fields =>
      have hfields := h fields rfl
      exact ⟨by simp [toJson, Json.floatFree, Json.floatFreeMembers, hfields.floatFree],
        by simp [toJson, Json.inRange, Json.inRangeMembers, hfields.inRange]⟩

theorem Transaction.plain_toJson {t : Transaction} (h : (toJson t.data).Plain) :
    (toJson t).Plain := by
  have hfree : Json.floatFreeMembers t.members = true := by
    unfold members
    cases t.signature <;>
      simpa [Json.floatFreeMembers, Json.floatFree, toJson] using h.floatFree
  have htext : ∀ s : String, (Json.str s).inRange = true := fun _ => rfl
  have hsignature : ∀ g : Signature, (toJson g).inRange = true := fun _ => rfl
  have hrange : Json.inRangeMembers t.members = true := by
    unfold members
    cases t.signature <;>
      simp only [List.cons_append, List.nil_append, Json.inRangeMembers, htext,
        Json.inRange_uint64, hsignature, h.inRange, Bool.and_self]
  exact ⟨hfree, hrange⟩

theorem Header.plain_toJson (h : Header) : (toJson h).Plain := by
  refine ⟨rfl, ?_⟩
  have htext : ∀ s : String, (Json.str s).inRange = true := fun _ => rfl
  have hdigest : ∀ d : Digest, (toJson d).inRange = true := fun _ => rfl
  show Json.inRangeMembers h.allMembers = true
  simp only [allMembers, HeaderCore.members, List.cons_append, List.nil_append,
    Json.inRangeMembers, htext, hdigest, Json.inRange_uint64, Bool.and_self]

theorem Block.plain_toJson {b : Block} (h : ∀ t ∈ b.transactions, (toJson t).Plain) :
    (toJson b).Plain := by
  have hfree : (toJson b.transactions).floatFree = true := by
    refine Json.floatFreeItems_iff.mpr fun x hx => ?_
    obtain ⟨t, ht, rfl⟩ := List.mem_map.mp hx
    exact (h t ht).floatFree
  have hrange : (toJson b.transactions).inRange = true := by
    refine Json.inRangeItems_iff.mpr fun x hx => ?_
    obtain ⟨t, ht, rfl⟩ := List.mem_map.mp hx
    exact (h t ht).inRange
  have hheader := b.header.plain_toJson
  constructor
  · show Json.floatFreeMembers [("header", toJson b.header), ("transactionSeries", toJson b.transactions)] =
      true
    simp only [Json.floatFreeMembers, hheader.floatFree, hfree, Bool.and_self]
  · show Json.inRangeMembers [("header", toJson b.header), ("transactionSeries", toJson b.transactions)] =
      true
    simp only [Json.inRangeMembers, hheader.inRange, hrange, Bool.and_self]

namespace Message

/-- The transactions in a message. -/
def transactions : Message → List Transaction
  | .block b => b.transactions
  | .transaction t => [t]

/-- The account data in a message. -/
def accountData (m : Message) : List Json.Object := m.transactions.filterMap (·.data.fields?)

theorem plain_content {m : Message} (h : ∀ fields ∈ m.accountData, fields.toJson.Plain) :
    m.content.Plain := by
  have htransactions : ∀ t ∈ m.transactions, (toJson t).Plain := by
    intro t ht
    refine Transaction.plain_toJson (Payload.plain_toJson fun fields hfields => ?_)
    exact h fields (List.mem_filterMap.mpr ⟨t, ht, hfields⟩)
  cases m with
  | block b => exact Block.plain_toJson htransactions
  | transaction t => exact htransactions t List.mem_cons_self

theorem ofSource?_ofJson {m : Message} (h : m.content.nesting ≤ depthLimit) :
    ofSource? m.channel 0 (.ofJson m.content) = some m := by
  cases m with
  | block b =>
      have hdepth : 0 + (toJson b).nesting ≤ depthLimit := (Nat.zero_add _).symm ▸ h
      have hread := Block.ofSource?_ofJson hdepth
      show (Block.ofSource? 0 (.ofJson (toJson b))).map Message.block = _
      rw [hread, Option.map_some]
  | transaction t =>
      have hdepth : 0 + (toJson t).nesting ≤ depthLimit := (Nat.zero_add _).symm ▸ h
      have hread := Transaction.ofSource?_ofJson hdepth
      show (Transaction.ofSource? 0 (.ofJson (toJson t))).map Message.transaction = _
      rw [hread, Option.map_some]

/-- What is plain and not too deep comes through. -/
theorem ofBody_of_plain {m : Message} (hplain : ∀ fields ∈ m.accountData, fields.toJson.Plain)
    (hdepth : m.content.nesting ≤ depthLimit) : ofBody m.channel m.body = .ok m := by
  have hcontent := plain_content hplain
  have hchannel : m.channel = blockChannel ∨ m.channel = transactionChannel := by
    cases m with
    | block b => exact .inl rfl
    | transaction t => exact .inr rfl
  rw [ofBody, if_pos hchannel, body, Source.read?_compact hcontent,
    Option.bind_some, ofSource?_ofJson hdepth]

end Message

/-! ## What is read -/

namespace Payload

theorem mem_of_onlyMember? {members : List (String × Json)} {name : String} {x : Json}
    (h : onlyMember? members name = some x) : x ∈ (Json.obj members).parts := by
  unfold onlyMember? at h
  split at h
  · rename_i key y heq
    cases h
    have hmem : (key, x) ∈ members.filter (fun m => m.1 == name) := by
      rw [heq]
      exact List.mem_cons_self
    exact List.mem_map_of_mem (List.mem_filter.mp hmem).1
  · exact nomatch h

/-- The account data of a payload is a part of what the payload is read from. -/
theorem parts_of_ofJson? {a : Json} {d : Payload} (h : ofJson? a = some d) :
    0 < a.nesting ∧ ∀ fields, d.fields? = some fields →
      ∃ members, .obj members ∈ a.parts ∧ fields = .ofMembers members := by
  unfold ofJson? at h
  split at h
  · refine ⟨Nat.succ_pos _, ?_⟩
    split at h
    · cases h
      exact nofun
    · cases h
      exact nofun
    · split at h
      · rename_i members hdata
        cases h
        rintro _ ⟨⟩
        exact ⟨members, mem_of_onlyMember? hdata, rfl⟩
      · exact nomatch h
    · exact nomatch h
  · cases h
    exact ⟨Nat.succ_pos _, nofun⟩
  · cases h
    exact ⟨Nat.succ_pos _, nofun⟩
  · rename_i members
    cases h
    refine ⟨Nat.succ_pos _, ?_⟩
    rintro _ ⟨⟩
    exact ⟨members, List.mem_cons_of_mem _ List.mem_cons_self, rfl⟩
  · exact nomatch h

theorem nesting_toJson_le {d : Payload} {n : Nat} (hn : 0 < n)
    (h : ∀ fields, d.fields? = some fields → fields.toJson.nesting < n) :
    (toJson d).nesting ≤ n := by
  cases d with
  | createAccount fields =>
      have hfields := h fields rfl
      show max 0 (max fields.toJson.nesting 0) + 1 ≤ n
      omega
  | transact => exact hn
  | miningReward => exact hn

/-- A payload that is read is no deeper than the limit, and its integers have 64 bits if those
of the text have. -/
theorem of_ofSource? {depth : Nat} {s : Source} {d : Payload} (h : ofSource? depth s = some d) :
    depth + (toJson d).nesting ≤ depthLimit ∧
      (s.inRange = true → ∀ fields, d.fields? = some fields → fields.toJson.inRange = true) := by
  obtain ⟨hlimit, a, hvalue, hread⟩ := ofSource?_eq_some.mp h
  obtain ⟨hpos, hparts⟩ := parts_of_ofJson? hread
  have hdepth := Source.nesting_of_json? hvalue
  constructor
  · have hle : (toJson d).nesting ≤ a.nesting := by
      refine nesting_toJson_le hpos fun fields hfields => ?_
      obtain ⟨members, hmem, rfl⟩ := hparts fields hfields
      exact Nat.lt_of_le_of_lt (Json.nesting_normalize_le (.obj members))
        (Json.nesting_lt_of_mem_parts hmem)
    omega
  · intro hrange fields hfields
    obtain ⟨members, hmem, rfl⟩ := hparts fields hfields
    exact Json.inRange_normalize (a := .obj members)
      (Json.inRange_of_mem_parts (Source.inRange_of_json? hrange hvalue) hmem)

end Payload

theorem Transaction.of_ofSource? {depth : Nat} {s : Source} {t : Transaction}
    (h : ofSource? depth s = some t) :
    depth + (toJson t).nesting ≤ depthLimit ∧
      (s.inRange = true →
        ∀ fields, t.data.fields? = some fields → fields.toJson.inRange = true) := by
  obtain ⟨_, _, _, _, _, data, _, hrecord, -, -, -, -, -, hdata, -⟩ := ofSource?_eq_some.mp h
  obtain ⟨x, rfl, hread⟩ := Option.bind_eq_some_iff.mp hdata
  obtain ⟨hdepth, hrange⟩ := Payload.of_ofSource? hread
  have hmem : x ∈ s.parts := Source.mem_parts_of_record? hrecord (by simp)
  rw [nesting_toJson]
  exact ⟨by omega, fun hs => hrange (Source.inRange_of_mem_parts hs hmem)⟩

theorem Block.of_ofSource? {s : Source} {b : Block} (h : ofSource? 0 s = some b) :
    (toJson b).nesting ≤ depthLimit ∧
      (s.inRange = true → ∀ t ∈ b.transactions,
        ∀ fields, t.data.fields? = some fields → fields.toJson.inRange = true) := by
  obtain ⟨_, items, hrecord, -, hseries⟩ := ofSource?_eq_some.mp h
  have hmem : Source.arr items ∈ s.parts := Source.mem_parts_of_record? hrecord (by simp)
  constructor
  · have hle : Json.nestingItems (b.transactions.map toJson) ≤ 125 := by
      refine Json.nestingItems_le.mpr fun x hx => ?_
      obtain ⟨t, ht, rfl⟩ := List.mem_map.mp hx
      obtain ⟨y, -, hread⟩ := Source.exists_of_mem_mapM hseries t ht
      have hdepth := (Transaction.of_ofSource? hread).1
      simp only [depthLimit] at hdepth
      omega
    rw [nesting_toJson]
    simp only [depthLimit]
    omega
  · intro hs t ht
    obtain ⟨y, hy, hread⟩ := Source.exists_of_mem_mapM hseries t ht
    have hitems := Source.inRange_of_mem_parts hs hmem
    exact (Transaction.of_ofSource? hread).2 (Source.inRange_of_mem_parts hitems hy)

namespace Message

/-- A message that is read is one of its channel, no deeper than the limit, and the integers in
it have 64 bits. -/
theorem of_ofBody {channel body : String} {m : Message} (h : ofBody channel body = .ok m) :
    m.channel = channel ∧ m.content.nesting ≤ depthLimit ∧
      ∀ fields ∈ m.accountData, fields.toJson.inRange = true := by
  unfold ofBody at h
  split at h
  · split at h
    · rename_i hread
      cases h
      obtain ⟨s, hsource, hread⟩ := Option.bind_eq_some_iff.mp hread
      have hs := Source.inRange_of_read? hsource
      have hdata : ∀ ts : List Transaction, (∀ t ∈ ts, ∀ fields, t.data.fields? = some fields →
          fields.toJson.inRange = true) →
          ∀ fields ∈ ts.filterMap (·.data.fields?), fields.toJson.inRange = true := by
        intro ts hts fields hfields
        obtain ⟨t, ht, hfields⟩ := List.mem_filterMap.mp hfields
        exact hts t ht fields hfields
      unfold ofSource? at hread
      split at hread
      · rename_i hchannel
        obtain ⟨b, hb, rfl⟩ := Option.map_eq_some_iff.mp hread
        obtain ⟨hdepth, hrange⟩ := Block.of_ofSource? hb
        exact ⟨hchannel.symm, hdepth, hdata _ (hrange hs)⟩
      · split at hread
        · rename_i hchannel
          obtain ⟨t, ht, rfl⟩ := Option.map_eq_some_iff.mp hread
          obtain ⟨hdepth, hrange⟩ := Transaction.of_ofSource? ht
          refine ⟨hchannel.symm, by rw [Nat.zero_add] at hdepth; exact hdepth, hdata _ ?_⟩
          intro u hu
          rw [List.mem_singleton.mp hu]
          exact hrange hs
        · exact nomatch hread
    · exact nomatch h
  · exact nomatch h

end Message

/-! ## Accepted blocks -/

/-- Everything in an accepted block is plain, and far from the limit. -/
theorem Message.shallow_of_validate {last b : Block} {s : State}
    (h : Block.validate last b s = .ok ()) :
    ∀ fields ∈ (Message.block b).accountData, fields.toJson.Shallow 3 := by
  intro fields hfields
  obtain ⟨t, ht, hdata⟩ := List.mem_filterMap.mp hfields
  obtain ⟨s', hseries⟩ := Block.validateAndRun_of_validate h
  obtain ⟨before, hvalid⟩ := Transaction.validate_of_mem hseries ht
  refine Transaction.shallow_of_validate hvalid ?_
  cases hpayload : t.data with
  | createAccount fields' =>
      rw [hpayload] at hdata
      rw [Option.some.inj hdata]
  | _ =>
      rw [hpayload] at hdata
      exact nomatch hdata

theorem Block.nesting_le_of_shallow {b : Block}
    (h : ∀ fields ∈ (Message.block b).accountData, fields.toJson.Shallow 3) :
    (toJson b).nesting ≤ depthLimit := by
  have hseries : Json.nestingItems (b.transactions.map toJson) ≤ 5 := by
    refine Json.nestingItems_le.mpr fun x hx => ?_
    obtain ⟨t, ht, rfl⟩ := List.mem_map.mp hx
    have hdata : (toJson t.data).nesting ≤ 4 := by
      refine Payload.nesting_toJson_le (by decide) fun fields hfields => ?_
      exact Nat.lt_succ_of_le (h fields (List.mem_filterMap.mpr ⟨t, ht, hfields⟩)).nesting
    rw [Transaction.nesting_toJson]
    omega
  rw [nesting_toJson, depthLimit]
  omega

/-! ## There and back -/

namespace Message

/-- Gossip loses nothing.

A message whose account data hold no float and whose text nests at most 127 levels is read on its
channel as it was sent, so that every digest of it and the validity of every signature in it are
what they were.  The integers of account data are those of 64 bits, with a sign or without one;
there are no others in a text.

An accepted block is such a message.  Conversely a message without floats that was read is one
of its channel, and is read as itself when it is sent on. -/
theorem ofBody_body :
    (∀ m : Message, (∀ fields ∈ m.accountData,
        fields.toJson.floatFree = true ∧ fields.toJson.inRange = true) →
      m.content.nesting ≤ 127 → ofBody m.channel m.body = .ok m) ∧
    (∀ (last b : Block) (s : State), Block.validate last b s = .ok () →
      (∀ fields ∈ (Message.block b).accountData,
        fields.toJson.floatFree = true ∧ fields.toJson.inRange = true) ∧
      (Message.block b).content.nesting ≤ 127 ∧
      ofBody (Message.block b).channel (Message.block b).body = .ok (.block b)) ∧
    ∀ (channel body : String) (m : Message), ofBody channel body = .ok m →
      (∀ fields ∈ m.accountData, fields.toJson.floatFree = true) →
      m.channel = channel ∧ ofBody channel m.body = .ok m := by
  refine ⟨?_, ?_, ?_⟩
  · intro m hdata hdepth
    exact ofBody_of_plain (fun fields hfields => ⟨(hdata fields hfields).1, (hdata fields hfields).2⟩)
      hdepth
  · intro last b s h
    have hshallow := shallow_of_validate h
    have hdepth := Block.nesting_le_of_shallow hshallow
    refine ⟨fun fields hfields => ?_, hdepth, ?_⟩
    · have hfield := hshallow fields hfields
      exact ⟨hfield.floatFree, hfield.inRange⟩
    · exact ofBody_of_plain (fun fields hfields => (hshallow fields hfields).toPlain) hdepth
  · intro channel body m h hfree
    obtain ⟨hchannel, hdepth, hrange⟩ := of_ofBody h
    refine ⟨hchannel, ?_⟩
    rw [← hchannel]
    exact ofBody_of_plain (fun fields hfields => ⟨hfree fields hfields, hrange fields hfields⟩) hdepth

/-- Account data with the largest and the least integer, keys that have to be escaped, and
containers with nothing in them. -/
def oddData : Json.Object :=
  .ofMembers [("\"\\", .arr [.int 18446744073709551615, .int (-9223372036854775808), .null]),
    ("é\n\x01", .obj []), ("", .arr [])]

/-- The publication of odd data, and an accepted block with two publications. -/
theorem ofBody_body_publications :
    let t : Transaction := ⟨"/\t", "", "ß", 18446744073709551615, 0, .createAccount oddData, none⟩
    let b := afterGenesis "miner" "reward" [Block.publication "ada", Block.publication "bea"] .empty
    ofBody transactionChannel (body (.transaction t)) = .ok (.transaction t) ∧
      (Message.transaction t).channel = transactionChannel ∧
      Block.validate genesis b .empty = .ok () ∧
      ofBody blockChannel (body (.block b)) = .ok (.block b) := by
  intro t b
  have ht : ofBody transactionChannel (body (.transaction t)) = .ok (.transaction t) :=
    ofBody_body.1 (.transaction t) (by decide +kernel) (by decide +kernel)
  have hs : Transaction.validateAndRun b.transactions .empty = .ok _ :=
    Block.run_publications (by decide) (by decide) (by decide)
  have hb : Block.validate genesis b .empty = .ok () :=
    Block.validate_eq_ok.mpr (.inr (accepted_afterGenesis (by decide) (by decide) hs))
  exact ⟨ht, (ofBody_body.2.2 _ _ _ ht (by decide +kernel)).1, hb, (ofBody_body.2.1 _ _ _ hb).2.2⟩

end Message

end WorkLedger
