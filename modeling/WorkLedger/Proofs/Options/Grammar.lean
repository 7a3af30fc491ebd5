/-
# The grammar of command lines

A command line sets one thing after another, each by a flag of its own and all but `--no-mine`
with a value behind the flag.  Arguments are read if and only if they are such settings one
behind the other, and what comes out is the last setting of each kind.  For the reader takes a
draft along, in which each setting overwrites those of its kind and no other.
-/
import Mathlib.Data.List.Induction
import WorkLedger.Proofs.Outcome
import WorkLedger.Proofs.Text.Numeral

namespace WorkLedger

/-! ## Names of levels -/

namespace LogLevel

/-- The names of a level in lowercase. -/
def spellings : LogLevel → List String
  | debug => ["debug"]
  | info => ["info"]
  | warn => ["warn", "warning"]
  | error => ["error"]

/-- A level is read in each of its names, in either case of the letters. -/
theorem parse?_eq_some {s : String} {l : LogLevel} :
    parse? s = some l ↔ lowercase s ∈ l.spellings := by
  unfold parse?
  constructor
  · intro h
    split at h
    case h_6 => exact nomatch h
    all_goals
      rename_i hs
      cases h
      rw [hs]
      decide
  · intro h
    cases l with
    | warn =>
        rcases List.mem_pair.mp h with hs | hs
        all_goals
          rw [hs]
          rfl
    | _ =>
        rw [List.mem_singleton.mp h]
        rfl

end LogLevel

namespace Options

/-! ## Settings -/

/-- What is set at one place of a command line. -/
inductive Setting where
  | noMine
  | name (text : String)
  | blockTime (secs : Nat)
  | peers (count : Nat)
  | log (level : LogLevel)
deriving DecidableEq

namespace Setting

/-- The flag of a setting. -/
def flag : Setting → String
  | noMine => "--no-mine"
  | name _ => "--name"
  | blockTime _ => "--block-time"
  | peers _ => "--peers"
  | log _ => "--log"

/-- The arguments that make a setting. -/
inductive Spelled : Setting → List String → Prop where
  | noMine : Spelled noMine ["--no-mine"]
  | name (text : String) : Spelled (name text) ["--name", text]
  | blockTime {text : String} {secs : Nat} : Numeral text secs → 1 ≤ secs → secs < UInt64.size →
      Spelled (blockTime secs) ["--block-time", text]
  | peers {text : String} {count : Nat} : Numeral text count → count < UInt64.size →
      Spelled (peers count) ["--peers", text]
  | log {text : String} {level : LogLevel} : LogLevel.lowercase text ∈ level.spellings →
      Spelled (log level) ["--log", text]

end Setting

/-- The arguments make these settings, one behind the other. -/
inductive CommandLine : List Setting → List String → Prop where
  | nil : CommandLine [] []
  | cons {s : Setting} {settings : List Setting} {piece rest : List String} :
      s.Spelled piece → CommandLine settings rest → CommandLine (s :: settings) (piece ++ rest)

variable {d d' : Draft} {s : Setting} {settings : List Setting} {flag value : String}
  {args before rest : List String} {e : OptionError}

/-! ## Reading -/

/-- The draft with one more setting. -/
def Draft.with (d : Draft) : Setting → Draft
  | .noMine => { d with mine := false }
  | .name text => { d with name := text }
  | .blockTime secs => { d with blockTime := 1000 * secs }
  | .peers count => { d with peers := count }
  | .log level => { d with logLevel := level }

/-- What was read of a value, or the complaint about the value. -/
def orInvalid {α : Type} (flag value : String) : Option α → Except OptionError α
  | some a => .ok a
  | none => .error (.invalidValue flag value)

theorem orInvalid_eq_ok {α : Type} {a? : Option α} {a : α} :
    orInvalid flag value a? = .ok a ↔ a? = some a := by
  cases a? with
  | none => exact ⟨nofun, nofun⟩
  | some b => rw [orInvalid, Except.ok.injEq, Option.some.injEq]

theorem eq_of_orInvalid_bind {α : Type} {a? : Option α} {f : α → Draft}
    (h : (orInvalid flag value a? >>= fun a => return f a) = .error e) :
    e = .invalidValue flag value := by
  cases a? with
  | none =>
      cases h
      rfl
  | some a => exact nomatch h

/-- Whole seconds are read if they are at least one. -/
theorem filter_eq_some {n : Nat} :
    (parseU64? value).filter (· ≠ 0) = some n ↔ Numeral value n ∧ 1 ≤ n ∧ n < UInt64.size := by
  rw [Option.filter_eq_some_iff, parseU64?_eq_some, decide_eq_true_iff, ← Nat.one_le_iff_ne_zero,
    and_right_comm, and_assoc]

/-- A flag takes a value if and only if they spell a setting. -/
theorem set_eq_ok : d.set flag value = .ok d' ↔
    ∃ s : Setting, s.Spelled [flag, value] ∧ d.with s = d' := by
  constructor
  · intro h
    unfold Draft.set at h
    split at h
    · cases h
      exact ⟨.name value, .name value, rfl⟩
    · obtain ⟨secs, hsecs, ⟨⟩⟩ := bind_eq_ok.mp h
      obtain ⟨hn, hpos, hlt⟩ := filter_eq_some.mp (orInvalid_eq_ok.mp hsecs)
      exact ⟨.blockTime secs, .blockTime hn hpos hlt, rfl⟩
    · obtain ⟨count, hcount, ⟨⟩⟩ := bind_eq_ok.mp h
      obtain ⟨hn, hlt⟩ := parseU64?_eq_some.mp (orInvalid_eq_ok.mp hcount)
      exact ⟨.peers count, .peers hn hlt, rfl⟩
    · obtain ⟨level, hlevel, ⟨⟩⟩ := bind_eq_ok.mp h
      exact ⟨.log level, .log (LogLevel.parse?_eq_some.mp (orInvalid_eq_ok.mp hlevel)), rfl⟩
    · exact nomatch h
  · rintro ⟨s, hs, rfl⟩
    cases hs with
    | name => rfl
    | blockTime hn hpos hlt =>
        have hsecs := filter_eq_some.mpr ⟨hn, hpos, hlt⟩
        exact bind_eq_ok.mpr ⟨_, orInvalid_eq_ok.mpr hsecs, rfl⟩
    | peers hn hlt =>
        have hcount := parseU64?_eq_some.mpr ⟨hn, hlt⟩
        exact bind_eq_ok.mpr ⟨_, orInvalid_eq_ok.mpr hcount, rfl⟩
    | log hs =>
        have hlevel := LogLevel.parse?_eq_some.mpr hs
        exact bind_eq_ok.mpr ⟨_, orInvalid_eq_ok.mpr hlevel, rfl⟩

theorem mem_valued : flag ∈ valued ↔
    flag = "--name" ∨ flag = "--block-time" ∨ flag = "--peers" ∨ flag = "--log" := by
  simp only [valued, List.mem_cons, List.not_mem_nil, or_false]

/-- A flag that takes a value complains about nothing else. -/
theorem eq_of_set_eq_error (hflag : flag ∈ valued) (h : d.set flag value = .error e) :
    e = .invalidValue flag value := by
  rcases mem_valued.mp hflag with rfl | rfl | rfl | rfl
  · exact nomatch h
  · exact eq_of_orInvalid_bind h
  · exact eq_of_orInvalid_bind h
  · exact eq_of_orInvalid_bind h

/-- A flag that takes a value complains about it if and only if they spell no setting. -/
theorem set_eq_error (hflag : flag ∈ valued) : d.set flag value = .error e ↔
    (∀ s : Setting, ¬s.Spelled [flag, value]) ∧ e = .invalidValue flag value := by
  constructor
  · intro h
    refine ⟨fun s hs => ?_, eq_of_set_eq_error hflag h⟩
    have hok : d.set flag value = .ok _ := set_eq_ok.mpr ⟨s, hs, rfl⟩
    rw [h] at hok
    cases hok
  · rintro ⟨hvalue, rfl⟩
    cases hset : d.set flag value with
    | ok d' =>
        obtain ⟨s, hs, -⟩ := set_eq_ok.mp hset
        exact absurd hs (hvalue s)
    | error e => rw [eq_of_set_eq_error hflag hset]

theorem ne_of_mem_valued :
    ∀ flag ∈ valued, ¬(flag = "--help" ∨ flag = "-h") ∧ flag ≠ "--no-mine" := by
  decide

theorem Setting.Spelled.mem_valued (hs : s.Spelled [flag, value]) : flag ∈ valued := by
  cases hs with
  | name => decide
  | blockTime => decide
  | peers => decide
  | log => decide

theorem parseFrom_noMine :
    parseFrom d ("--no-mine" :: rest) = parseFrom { d with mine := false } rest := by
  rw [parseFrom.eq_def]
  dsimp only
  rw [if_neg (by decide), if_pos rfl]

theorem parseFrom_singleton (hflag : flag ∈ valued) :
    parseFrom d [flag] = .error (.missingValue flag) := by
  obtain ⟨hhelp, hmine⟩ := ne_of_mem_valued flag hflag
  rw [parseFrom, if_neg hhelp, if_neg hmine, if_pos hflag]

theorem parseFrom_valued (hflag : flag ∈ valued) :
    parseFrom d (flag :: value :: rest) = d.set flag value >>= (parseFrom · rest) := by
  obtain ⟨hhelp, hmine⟩ := ne_of_mem_valued flag hflag
  rw [parseFrom, if_neg hhelp, if_neg hmine, if_pos hflag]
  cases d.set flag value with
  | ok d' => rfl
  | error e => rfl

theorem parseFrom_pair (hs : s.Spelled [flag, value]) :
    parseFrom d (flag :: value :: rest) = parseFrom (d.with s) rest := by
  rw [parseFrom_valued hs.mem_valued, set_eq_ok.mpr ⟨s, hs, rfl⟩, ok_bind]

/-- One setting is read. -/
theorem parseFrom_of_spelled {piece : List String} (hs : s.Spelled piece) :
    parseFrom d (piece ++ rest) = parseFrom (d.with s) rest := by
  have hpair := hs
  cases hs with
  | noMine => exact parseFrom_noMine
  | name => exact parseFrom_pair hpair
  | blockTime => exact parseFrom_pair hpair
  | peers => exact parseFrom_pair hpair
  | log => exact parseFrom_pair hpair

/-- All settings are read, and what comes behind them afterwards. -/
theorem CommandLine.parseFrom_append (h : CommandLine settings before) :
    parseFrom d (before ++ rest) = parseFrom (settings.foldl Draft.with d) rest := by
  induction h generalizing d with
  | nil => rfl
  | cons hs _ ih => rw [List.append_assoc, parseFrom_of_spelled hs, ih, List.foldl_cons]

/-- Where reading succeeds, it has read settings. -/
theorem exists_commandLine (h : parseFrom d args = .ok d') :
    ∃ settings, CommandLine settings args ∧ settings.foldl Draft.with d = d' := by
  fun_induction parseFrom d args with
  | case1 d =>
      cases h
      exact ⟨[], .nil, rfl⟩
  | case2 => exact nomatch h
  | case3 d rest hhelp ih =>
      obtain ⟨settings, hline, hfold⟩ := ih h
      exact ⟨.noMine :: settings, .cons .noMine hline, hfold⟩
  | case4 => exact nomatch h
  | case5 d flag hhelp hmine hflag value rest d₁ hset ih =>
      obtain ⟨s, hs, rfl⟩ := set_eq_ok.mp hset
      obtain ⟨settings, hline, hfold⟩ := ih h
      exact ⟨s :: settings, .cons hs hline, hfold⟩
  | case6 => exact nomatch h
  | case7 => exact nomatch h

theorem parseFrom_eq_ok : parseFrom d args = .ok d' ↔
    ∃ settings, CommandLine settings args ∧ settings.foldl Draft.with d = d' := by
  refine ⟨exists_commandLine, ?_⟩
  rintro ⟨settings, hline, rfl⟩
  rw [← List.append_nil args, hline.parseFrom_append]
  rfl

/-! ## The last of each kind -/

namespace Setting

def name? : Setting → Option String
  | name text => some text
  | _ => none

/-- The time between blocks in milliseconds. -/
def millis? : Setting → Option Nat
  | blockTime secs => some (1000 * secs)
  | _ => none

def count? : Setting → Option Nat
  | peers count => some count
  | _ => none

def level? : Setting → Option LogLevel
  | log level => some level
  | _ => none

end Setting

/-- The value of the last setting with a flag, or the default. -/
def latest {α : Type} (flag : String) (value? : Setting → Option α) (default : α)
    (settings : List Setting) : α :=
  ((settings.filter (·.flag = flag)).getLast?.bind value?).getD default

/-- What settings come to: of each kind the last counts, and no block time is left where mining
is switched off. -/
def ofSettings (settings : List Setting) : Options where
  name := latest "--name" Setting.name? "node" settings
  blockTime :=
    if .noMine ∈ settings then none
    else some (latest "--block-time" Setting.millis? mineRate.toNat settings)
  peers := latest "--peers" Setting.count? 0 settings
  logLevel := latest "--log" Setting.level? .info settings

/-- A field that the settings with a flag overwrite holds the value of the last of them. -/
theorem field_foldl {α : Type} (flag : String) (field : Draft → α) (value? : Setting → Option α)
    (hstep : ∀ d s, (if s.flag = flag then value? s else some (field d)) = some (field (d.with s)))
    (settings : List Setting) :
    field (settings.foldl Draft.with d) = latest flag value? (field d) settings := by
  -- The last setting is the one that counts, so it is taken off first.
  induction settings using List.reverseRecOn with
  | nil => rfl
  | append_singleton settings s ih =>
      have hlast := hstep (settings.foldl Draft.with d) s
      rw [List.foldl_append, List.foldl_cons, List.foldl_nil, latest, List.filter_append]
      by_cases hs : s.flag = flag
      · rw [if_pos hs] at hlast
        simp [hs, hlast]
      · rw [if_neg hs, ih, Option.some.injEq] at hlast
        simp [hs, ← hlast, latest]

theorem mine_foldl (settings : List Setting) :
    (settings.foldl Draft.with d).mine = (d.mine && decide (Setting.noMine ∉ settings)) := by
  induction settings generalizing d with
  | nil => exact (Bool.and_true _).symm
  | cons s settings ih =>
      rw [List.foldl_cons, ih]
      cases s with
      | noMine => simp [Draft.with]
      | _ => simp [Draft.with]

/-- The draft of settings is finished as the last of each kind say. -/
theorem finish_foldl (settings : List Setting) :
    (settings.foldl Draft.with .initial).finish = ofSettings settings := by
  have hname := field_foldl (d := .initial) "--name" Draft.name Setting.name?
    (fun d s => by cases s <;> rfl) settings
  have hblockTime := field_foldl (d := .initial) "--block-time" Draft.blockTime Setting.millis?
    (fun d s => by cases s <;> rfl) settings
  have hpeers := field_foldl (d := .initial) "--peers" Draft.peers Setting.count?
    (fun d s => by cases s <;> rfl) settings
  have hlogLevel := field_foldl (d := .initial) "--log" Draft.logLevel Setting.level?
    (fun d s => by cases s <;> rfl) settings
  rw [Draft.finish, hname, hblockTime, hpeers, hlogLevel, mine_foldl]
  by_cases hmine : Setting.noMine ∈ settings
  · simp [ofSettings, hmine, Draft.initial]
  · simp [ofSettings, hmine, Draft.initial]

/-- What a command line comes to. -/
theorem parse_eq_ok {o : Options} :
    parse args = .ok o ↔ ∃ settings, CommandLine settings args ∧ ofSettings settings = o := by
  rw [parse, map_eq_ok]
  constructor
  · rintro ⟨d, hd, rfl⟩
    obtain ⟨settings, hline, rfl⟩ := parseFrom_eq_ok.mp hd
    exact ⟨settings, hline, (finish_foldl settings).symm⟩
  · rintro ⟨settings, hline, rfl⟩
    exact ⟨_, parseFrom_eq_ok.mpr ⟨settings, hline, rfl⟩, finish_foldl settings⟩

/-- Settings of different kinds may change places. -/
theorem ofSettings_congr {settings others : List Setting}
    (h : ∀ flag, settings.filter (·.flag = flag) = others.filter (·.flag = flag)) :
    ofSettings settings = ofSettings others := by
  have hmine : Setting.noMine ∈ settings ↔ Setting.noMine ∈ others := by
    have hmem := congrArg (Setting.noMine ∈ ·) (h "--no-mine")
    simpa [Setting.flag] using hmem
  simp only [ofSettings, latest, hmine, h]

end Options

end WorkLedger
