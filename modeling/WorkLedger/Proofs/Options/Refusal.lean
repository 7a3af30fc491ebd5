/-
# Where a command line is left

Arguments that are no command line leave the grammar at some place, and the leftmost such place
decides the complaint: a call for help or an unknown argument where a flag has to stand, a value
that its flag does not take, or no value where one is missing.  What comes behind the place makes
no difference.  The place is described without the reader, by what can still become a command
line, and the complaint by what stands there.
-/
import WorkLedger.Proofs.Options.Grammar

namespace WorkLedger.Options

variable {d : Draft} {s : Setting} {settings : List Setting} {flag value : String}
  {args before after piece : List String} {here : Option String} {e : OptionError}

/-- Some settings are made by these arguments. -/
def IsCommandLine (args : List String) : Prop := ∃ settings, CommandLine settings args

/-- The leftmost place where arguments leave the grammar.  What comes before it can go on to a
command line, and so can all that is shorter; but not with what is there, nothing if they end. -/
structure LeftAt (before : List String) (here : Option String) : Prop where
  viable : ∃ after, IsCommandLine (before ++ after)
  left : ∀ after, after.head? = here → ¬IsCommandLine (before ++ after)

/-- The complaint about what comes behind other arguments.  A flag has to stand behind a command
line, and a value behind a flag that takes one. -/
inductive Complaint : List String → Option String → OptionError → Prop where
  | help {before : List String} {flag : String} : IsCommandLine before →
      flag ∈ ["--help", "-h"] → Complaint before (some flag) .helpRequested
  | unexpected {before : List String} {arg : String} : IsCommandLine before →
      arg ∉ ["--help", "-h"] → (∀ s : Setting, s.flag ≠ arg) →
      Complaint before (some arg) (.unexpectedArgument arg)
  | missing {before : List String} {flag : String} : IsCommandLine before → flag ∈ valued →
      Complaint (before ++ [flag]) none (.missingValue flag)
  | invalid {before : List String} {flag value : String} : IsCommandLine before →
      flag ∈ valued → (∀ s : Setting, ¬s.Spelled [flag, value]) →
      Complaint (before ++ [flag]) (some value) (.invalidValue flag value)

/-! ## Complaints are made -/

theorem IsCommandLine.cons {rest : List String} (hs : s.Spelled piece) (h : IsCommandLine rest) :
    IsCommandLine (piece ++ rest) := by
  obtain ⟨settings, hline⟩ := h
  exact ⟨s :: settings, .cons hs hline⟩

/-- The reader comes through a command line to what is behind it. -/
theorem IsCommandLine.exists_parse_append (h : IsCommandLine before) :
    ∃ d, ∀ rest, parse (before ++ rest) = (parseFrom d rest).map Draft.finish := by
  obtain ⟨settings, hline⟩ := h
  refine ⟨settings.foldl Draft.with .initial, fun rest => ?_⟩
  rw [parse, hline.parseFrom_append]

theorem IsCommandLine.exists_parse (h : IsCommandLine args) : ∃ o, parse args = .ok o := by
  obtain ⟨settings, hline⟩ := h
  exact ⟨ofSettings settings, parse_eq_ok.mpr ⟨settings, hline, rfl⟩⟩

theorem parseFrom_help (hflag : flag ∈ ["--help", "-h"]) (rest : List String) :
    parseFrom d (flag :: rest) = .error .helpRequested := by
  rw [parseFrom.eq_def]
  exact if_pos (List.mem_pair.mp hflag)

/-- A flag that takes a value takes some value. -/
theorem exists_spelled (hflag : flag ∈ valued) : ∃ s value, Setting.Spelled s [flag, value] := by
  have hone : Numeral "1" 1 := ⟨0, .inl (by decide)⟩
  rcases mem_valued.mp hflag with rfl | rfl | rfl | rfl
  · exact ⟨.name "", "", .name ""⟩
  · exact ⟨.blockTime 1, "1", .blockTime hone (by decide) (by decide)⟩
  · exact ⟨.peers 1, "1", .peers hone (by decide)⟩
  · exact ⟨.log .info, "info", .log (by decide +kernel)⟩

theorem Setting.Spelled.flag_eq (hs : s.Spelled [flag, value]) : s.flag = flag := by
  cases hs with
  | name => rfl
  | blockTime => rfl
  | peers => rfl
  | log => rfl

/-- Nothing else is a flag. -/
theorem forall_flag_ne :
    (∀ s : Setting, s.flag ≠ flag) ↔ flag ≠ "--no-mine" ∧ flag ∉ valued := by
  constructor
  · intro h
    refine ⟨(h .noMine).symm, fun hflag => ?_⟩
    obtain ⟨s, value, hs⟩ := exists_spelled hflag
    exact h s hs.flag_eq
  · rintro ⟨hmine, hvalued⟩ s rfl
    cases s with
    | noMine => exact hmine rfl
    | name => exact hvalued (by decide : "--name" ∈ valued)
    | blockTime => exact hvalued (by decide : "--block-time" ∈ valued)
    | peers => exact hvalued (by decide : "--peers" ∈ valued)
    | log => exact hvalued (by decide : "--log" ∈ valued)

theorem parseFrom_unexpected (hhelp : flag ∉ ["--help", "-h"])
    (hflag : ∀ s : Setting, s.flag ≠ flag) (rest : List String) :
    parseFrom d (flag :: rest) = .error (.unexpectedArgument flag) := by
  obtain ⟨hmine, hvalued⟩ := forall_flag_ne.mp hflag
  rw [parseFrom.eq_def]
  dsimp only
  rw [if_neg (List.mem_pair.not.mp hhelp), if_neg hmine, if_neg hvalued]

theorem parseFrom_invalid (hflag : flag ∈ valued) (hvalue : ∀ s : Setting, ¬s.Spelled [flag, value])
    (rest : List String) :
    parseFrom d (flag :: value :: rest) = .error (.invalidValue flag value) := by
  rw [parseFrom_valued hflag, (set_eq_error hflag).mpr ⟨hvalue, rfl⟩]
  rfl

/-- A complaint is made whatever comes behind its place. -/
theorem Complaint.parse (h : Complaint before after.head? e) :
    parse (before ++ after) = .error e := by
  generalize hhere : after.head? = here at h
  cases h with
  | help hbefore hflag =>
      obtain ⟨rest, rfl⟩ := List.head?_eq_some_iff.mp hhere
      obtain ⟨d, hd⟩ := hbefore.exists_parse_append
      rw [hd, parseFrom_help hflag]
      rfl
  | unexpected hbefore hhelp hflag =>
      obtain ⟨rest, rfl⟩ := List.head?_eq_some_iff.mp hhere
      obtain ⟨d, hd⟩ := hbefore.exists_parse_append
      rw [hd, parseFrom_unexpected hhelp hflag]
      rfl
  | missing hbefore hflag =>
      cases List.head?_eq_none_iff.mp hhere
      obtain ⟨d, hd⟩ := hbefore.exists_parse_append
      rw [List.append_nil, hd, parseFrom_singleton hflag]
      rfl
  | invalid hbefore hflag hvalue =>
      obtain ⟨rest, rfl⟩ := List.head?_eq_some_iff.mp hhere
      obtain ⟨d, hd⟩ := hbefore.exists_parse_append
      rw [List.append_assoc, hd, List.singleton_append, parseFrom_invalid hflag hvalue]
      rfl

/-! ## No other complaint is made -/

theorem Complaint.cons (hs : s.Spelled piece) (h : Complaint before here e) :
    Complaint (piece ++ before) here e := by
  cases h with
  | help hbefore hflag => exact .help (hbefore.cons hs) hflag
  | unexpected hbefore hhelp hflag => exact .unexpected (hbefore.cons hs) hhelp hflag
  | missing hbefore hflag =>
      rw [← List.append_assoc]
      exact .missing (hbefore.cons hs) hflag
  | invalid hbefore hflag hvalue =>
      rw [← List.append_assoc]
      exact .invalid (hbefore.cons hs) hflag hvalue

theorem isCommandLine_nil : IsCommandLine [] := ⟨[], .nil⟩

/-- Where reading fails, there is something to complain about. -/
theorem exists_complaint (h : parseFrom d args = .error e) :
    ∃ before after, before ++ after = args ∧ Complaint before after.head? e := by
  fun_induction parseFrom d args with
  | case1 => cases h
  | case2 d flag rest hhelp =>
      cases h
      exact ⟨[], flag :: rest, rfl, .help isCommandLine_nil (List.mem_pair.mpr hhelp)⟩
  | case3 d rest hhelp ih =>
      obtain ⟨before, after, rfl, hc⟩ := ih h
      exact ⟨"--no-mine" :: before, after, rfl, hc.cons .noMine⟩
  | case4 d flag hhelp hmine hflag =>
      cases h
      exact ⟨[flag], [], rfl, .missing isCommandLine_nil hflag⟩
  | case5 d flag hhelp hmine hflag value rest d' hset ih =>
      obtain ⟨s, hs, rfl⟩ := set_eq_ok.mp hset
      obtain ⟨before, after, rfl, hc⟩ := ih h
      exact ⟨flag :: value :: before, after, rfl, hc.cons hs⟩
  | case6 d flag hhelp hmine hflag value rest e' hset =>
      cases h
      obtain ⟨hvalue, rfl⟩ := (set_eq_error hflag).mp hset
      exact ⟨[flag], value :: rest, rfl, .invalid isCommandLine_nil hflag hvalue⟩
  | case7 d flag rest hhelp hmine hflag =>
      cases h
      exact ⟨[], flag :: rest, rfl, .unexpected isCommandLine_nil
        (List.mem_pair.not.mpr hhelp) (forall_flag_ne.mpr ⟨hmine, hflag⟩)⟩

/-- What is refused is complained about, and what is complained about is refused. -/
theorem parse_eq_error : parse args = .error e ↔
    ∃ before after, before ++ after = args ∧ Complaint before after.head? e := by
  constructor
  · intro h
    rw [parse, map_eq_error] at h
    exact exists_complaint h
  · rintro ⟨before, after, rfl, hc⟩
    exact hc.parse

/-! ## The place of a complaint -/

theorem IsCommandLine.append {rest : List String} (h : IsCommandLine before)
    (hrest : IsCommandLine rest) : IsCommandLine (before ++ rest) := by
  obtain ⟨settings, hline⟩ := h
  induction hline with
  | nil => exact hrest
  | cons hs _ ih =>
      rw [List.append_assoc]
      exact ih.cons hs

/-- A flag without its value can still get one. -/
theorem IsCommandLine.viable_append (h : IsCommandLine before) (hflag : flag ∈ valued) :
    ∃ after, IsCommandLine (before ++ [flag] ++ after) := by
  obtain ⟨s, value, hs⟩ := exists_spelled hflag
  have hsetting : IsCommandLine ([flag, value] ++ []) := isCommandLine_nil.cons hs
  refine ⟨[value], ?_⟩
  rw [List.append_assoc]
  exact h.append hsetting

theorem Complaint.viable (h : Complaint before here e) :
    ∃ after, IsCommandLine (before ++ after) := by
  cases h with
  | help hbefore => exact ⟨[], by rwa [List.append_nil]⟩
  | unexpected hbefore => exact ⟨[], by rwa [List.append_nil]⟩
  | missing hbefore hflag => exact hbefore.viable_append hflag
  | invalid hbefore hflag => exact hbefore.viable_append hflag

/-- Complaints are about the place where the grammar is left. -/
theorem Complaint.leftAt (h : Complaint before here e) : LeftAt before here where
  viable := h.viable
  left := by
    rintro after rfl hline
    obtain ⟨o, ho⟩ := hline.exists_parse
    rw [h.parse] at ho
    exact nomatch ho

/-- What goes on past the place where the grammar is left starts no command line. -/
theorem LeftAt.not_viable {x : String} {mid : List String}
    (h : LeftAt before (some x)) : ¬∃ after, IsCommandLine (before ++ x :: mid ++ after) := by
  rintro ⟨after, hline⟩
  rw [List.append_assoc] at hline
  exact h.left _ rfl hline

/-- Arguments leave the grammar at one place only. -/
theorem LeftAt.unique {before' after' : List String} (h : LeftAt before after.head?)
    (h' : LeftAt before' after'.head?) (heq : before ++ after = before' ++ after') :
    before = before' ∧ after = after' := by
  -- Of two places the later one would lie behind what no command line starts with.
  rcases List.append_eq_append_iff.mp heq with ⟨mid, rfl, rfl⟩ | ⟨mid, rfl, rfl⟩
  · cases mid with
    | nil => exact ⟨(List.append_nil before).symm, rfl⟩
    | cons x mid => exact absurd h'.viable h.not_viable
  · cases mid with
    | nil => exact ⟨List.append_nil before', rfl⟩
    | cons x mid => exact absurd h.viable h'.not_viable

/-- Where the grammar is left, there is a complaint. -/
theorem LeftAt.exists_complaint (h : LeftAt before after.head?) :
    ∃ e, Complaint before after.head? e := by
  cases hp : parse (before ++ after) with
  | ok o =>
      obtain ⟨settings, hline, -⟩ := parse_eq_ok.mp hp
      exact absurd ⟨settings, hline⟩ (h.left after rfl)
  | error e =>
      obtain ⟨before', after', heq, hc⟩ := parse_eq_error.mp hp
      obtain ⟨rfl, rfl⟩ := hc.leftAt.unique h heq
      exact ⟨e, hc⟩

/-- Options are read off exactly the command lines.

The options of a command line are what its settings come to, the last of each kind.  They are the
same for settings that differ in the order of different kinds only, however these are spelled.
Any other arguments are refused, with the complaint about the leftmost place where they leave the
grammar, and what comes behind that place makes no difference. -/
theorem parse_follows_grammar (args : List String) :
    (∀ o, parse args = .ok o ↔
      ∃ settings, CommandLine settings args ∧ ofSettings settings = o) ∧
    (∀ settings others args', CommandLine settings args → CommandLine others args' →
      (∀ flag, others.filter (·.flag = flag) = settings.filter (·.flag = flag)) →
      parse args' = parse args) ∧
    (∀ e, parse args = .error e ↔
      ∃ before after, before ++ after = args ∧
        LeftAt before after.head? ∧ Complaint before after.head? e) ∧
    ∀ before after, before ++ after = args → LeftAt before after.head? →
      ∀ after', after'.head? = after.head? → parse (before ++ after') = parse args := by
  refine ⟨fun o => parse_eq_ok, ?reordered, fun e => ?refused, ?follows⟩
  case reordered =>
    intro settings others args' hline hline' hsame
    rw [parse_eq_ok.mpr ⟨settings, hline, rfl⟩]
    exact parse_eq_ok.mpr ⟨others, hline', ofSettings_congr hsame⟩
  case refused =>
    rw [parse_eq_error]
    constructor
    · rintro ⟨before, after, heq, hc⟩
      exact ⟨before, after, heq, hc.leftAt, hc⟩
    · rintro ⟨before, after, heq, -, hc⟩
      exact ⟨before, after, heq, hc⟩
  case follows =>
    rintro before after rfl hleft after' hhead
    obtain ⟨e, hc⟩ := hleft.exists_complaint
    rw [hc.parse]
    rw [← hhead] at hc
    exact hc.parse

/-- Values that look like flags, and a block time that comes to nothing; the same settings in
another order and other spellings; and a value that is none, whatever comes behind it. -/
theorem parse_follows_grammar_verbatim :
    parse ["--name", "--help", "--block-time", "+07", "--no-mine", "--name", "-h",
      "--log", "WARNING"] = .ok ⟨"-h", none, 0, .warn⟩ ∧
    parse ["--no-mine", "--log", "warn", "--name", "--help", "--name", "-h",
      "--block-time", "7"] = .ok ⟨"-h", none, 0, .warn⟩ ∧
    parse ["--name", "--name", "--peers", "many"] = .error (.invalidValue "--peers" "many") ∧
    ∀ after, parse (["--name", "--name", "--peers"] ++ "many" :: after) =
      .error (.invalidValue "--peers" "many") := by
  have hsigned : Numeral "+07" 7 := ⟨1, .inr (by decide)⟩
  have hplain : Numeral "7" 7 := ⟨0, .inl (by decide)⟩
  have hupper : LogLevel.lowercase "WARNING" ∈ LogLevel.warn.spellings := by decide +kernel
  have hlower : LogLevel.lowercase "warn" ∈ LogLevel.warn.spellings := by decide +kernel
  have hline := CommandLine.cons (.name "--help") <|
    .cons (.blockTime hsigned (by decide) (by decide)) <|
    .cons .noMine <| .cons (.name "-h") <| .cons (.log hupper) .nil
  have hother := CommandLine.cons .noMine <| .cons (.log hlower) <|
    .cons (.name "--help") <| .cons (.name "-h") <|
    .cons (.blockTime hplain (by decide) (by decide)) .nil
  obtain ⟨hok, hreordered, -, -⟩ := parse_follows_grammar
    ["--name", "--help", "--block-time", "+07", "--no-mine", "--name", "-h", "--log", "WARNING"]
  obtain ⟨-, -, hrefused, hfollows⟩ := parse_follows_grammar
    ["--name", "--name", "--peers", "many"]
  have hfirst := (hok ⟨"-h", none, 0, .warn⟩).mpr ⟨_, hline, rfl⟩
  have hmany : ∀ s : Setting, ¬s.Spelled ["--peers", "many"] := by
    intro s hs
    have hset : Draft.initial.set "--peers" "many" = .ok _ := set_eq_ok.mpr ⟨s, hs, rfl⟩
    exact nomatch hset
  have hbefore : IsCommandLine (["--name", "--name"] ++ []) :=
    isCommandLine_nil.cons (.name "--name")
  have hcomplaint : Complaint ["--name", "--name", "--peers"] (some "many") _ :=
    .invalid hbefore (by decide) hmany
  have hlast := (hrefused _).mpr ⟨_, ["many"], rfl, hcomplaint.leftAt, hcomplaint⟩
  refine ⟨hfirst, (hreordered _ _ _ hline hother ?_).trans hfirst, hlast, fun after => ?_⟩
  · intro flag
    simp only [List.filter_cons, Setting.flag]
    grind
  · exact (hfollows _ ["many"] rfl hcomplaint.leftAt _ rfl).trans hlast

end WorkLedger.Options
