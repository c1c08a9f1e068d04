/-
  Webstore.Getopts

  `getopts`, the option parser of all four programs.  A word is compared with
  the long names from its third character on and with the short names from its
  second, whatever comes before; an option that takes a value takes the next
  word, unless that looks like an option.  The parser keeps its place in a
  global, and looks for a request for help among all words at every call.
-/
import Mathlib.Data.List.Pairwise
import Webstore.Libc

namespace Webstore

open Webstore.Libc

/-- `struct options`. -/
structure Opt where
  number : Int
  name : Option Bytes
  shortName : Option Bytes
  args : Bool
deriving DecidableEq

/-- `strcmp(s, arg + off) == 0`; `arg + off` may lie behind the terminator. -/
def strcmpAt (s arg : Bytes) (off : Nat) : Except Fault Bool :=
  if off ≤ arg.length then .ok (s == arg.drop off) else .error .outOfBounds

/-- The test of one option. -/
def Opt.fits (o : Opt) (arg : Bytes) : Except Fault Bool := do
  let long ←
    match o.name with
    | some name => strcmpAt name arg 2
    | none => pure false
  if long then return true
  match o.shortName with
  | some name => strcmpAt name arg 1
  | none => return false

/-- The loop over the table, which ends before the entry without a number and a
    description. -/
def findOpt (arg : Bytes) : List Opt → Except Fault (Option Opt)
  | [] => .ok none
  | o :: opts => do
      if ← o.fits arg then return some o
      findOpt arg opts

/-- What a call of `getopts` comes to: the usage is printed and the program
    exits with 0, or a value and `*args` are returned. -/
inductive Call where
  | usage
  | ret (c : Int) (args : Option Bytes)
deriving DecidableEq

def isHelp (arg : Bytes) : Bool := arg == ascii "-h" || arg == ascii "--help"

/-- `-`. -/
def dash : UInt8 := 45

/-- `getopts`, with `option_index` before and after. -/
def getopts (argv : List Bytes) (opts : List Opt) (optionIndex : Nat) :
    Except Fault (Call × Nat) := do
  let argc := argv.length
  if argc = 1 ∨ optionIndex = argc then return (.ret 0 none, optionIndex)
  if (argv.drop 1).any isHelp then return (.usage, optionIndex)
  if optionIndex ≤ argc then
    let arg := argv.getD optionIndex []
    match ← findOpt arg opts with
    | some o =>
        if o.args then
          let optionIndex := optionIndex + 1
          if argc ≤ optionIndex then return (.usage, optionIndex)
          let val := argv.getD optionIndex []
          -- a value may begin with `-` if it is no option
          if val.head? = some dash then
            if (← findOpt val opts).isSome then return (.usage, optionIndex)
          return (.ret o.number (some val), optionIndex + 1)
        else return (.ret o.number none, optionIndex + 1)
    | none =>
        if arg.head? = some dash then return (.ret (-2) (some arg), optionIndex + 1)
        return (.ret 0 none, optionIndex)
  else return (.ret 0 none, optionIndex)

/-- What a program has seen of its command line: the values returned, and
    whether it was told to exit in between. -/
structure Parsed where
  items : List (Int × Option Bytes)
  usage : Bool
deriving DecidableEq

/-- One more item in front. -/
def Parsed.cons (item : Int × Option Bytes) (p : Parsed) : Parsed :=
  { p with items := item :: p.items }

/-- `while ((c = getopts(argc, argv, opts, &args)) != 0)`; `none` is no end in
    sight. -/
def getoptsLoop (argv : List Bytes) (opts : List Opt) :
    Nat → Nat → Except Fault (Option Parsed)
  | 0, _ => .ok none
  | fuel + 1, optionIndex => do
      match ← getopts argv opts optionIndex with
      | (.usage, _) => return some ⟨[], true⟩
      | (.ret c args, optionIndex) =>
          if c = 0 then return some ⟨[], false⟩
          let rest ← getoptsLoop argv opts fuel optionIndex
          return rest.map (Parsed.cons (c, args))

/-! ## Tables -/

/-- A table as the programs have them: there are options, each has a name, and
    none returns the 0 that ends the loop. -/
structure OptList where
  opts : List Opt
  number : ∀ o ∈ opts, o.number ≠ 0
  named : ∀ o ∈ opts, o.name.getD [] ≠ []
  nonempty : opts ≠ []

/-- A table that reads its own options: the short names are single characters,
    and nothing is called twice or like `-h`. -/
structure OptTable extends OptList where
  short : ∀ o ∈ opts, ∀ s ∈ o.shortName, s.length = 1
  names : opts.Pairwise fun a b => a.name ≠ b.name
  shortNames : opts.Pairwise fun a b => a.shortName = none ∨ a.shortName ≠ b.shortName
  noHelp : ∀ o ∈ opts, o.name ≠ some (ascii "help") ∧ o.shortName ≠ some (ascii "h")

/-- An option has a name of one character or more. -/
theorem OptList.exists_name (T : OptList) {o : Opt} (ho : o ∈ T.opts) :
    ∃ c cs, o.name = some (c :: cs) := by
  have hne := T.named o ho
  match hname : o.name with
  | none => simp [hname] at hne
  | some [] => simp [hname] at hne
  | some (c :: cs) => exact ⟨c, cs, rfl⟩

theorem OptTable.exists_short (T : OptTable) {o : Opt} (ho : o ∈ T.opts) {s : Bytes}
    (hs : o.shortName = some s) : ∃ c, s = [c] :=
  List.length_eq_one_iff.mp (T.short o ho s hs)

/-- The first option that a word stands for. -/
def lookupOpt (opts : List Opt) (w : Bytes) : Option Opt :=
  opts.find? fun o => o.name == some (w.drop 2) || o.shortName == some (w.drop 1)

/-- What one call makes of the words from its place on, and how many it uses
    up. -/
def readOne (opts : List Opt) : List Bytes → Except Fault (Call × Nat)
  | [] => .ok (.ret 0 none, 0)
  | w :: ws =>
      if w.length < 2 then .error .outOfBounds
      else
        match lookupOpt opts w with
        | none =>
            .ok (if w.head? = some dash then (.ret (-2) (some w), 1) else (.ret 0 none, 0))
        | some o =>
            if o.args then
              match ws with
              | [] => .ok (.usage, 1)
              | v :: _ =>
                  if v = [dash] then .error .outOfBounds
                  else if v.head? = some dash ∧ (lookupOpt opts v).isSome then .ok (.usage, 1)
                  else .ok (.ret o.number (some v), 2)
            else .ok (.ret o.number none, 1)

/-- What is read off the words behind the name of the program. -/
def readWords (opts : List Opt) : List Bytes → Except Fault Parsed
  | [] => .ok ⟨[], false⟩
  | w :: ws =>
      if w.length < 2 then .error .outOfBounds
      else
        match lookupOpt opts w with
        | none =>
            if w.head? = some dash then (readWords opts ws).map (Parsed.cons (-2, some w))
            else .ok ⟨[], false⟩
        | some o =>
            if o.args then
              match ws with
              | [] => .ok ⟨[], true⟩
              | v :: ws =>
                  if v = [dash] then .error .outOfBounds
                  else if v.head? = some dash ∧ (lookupOpt opts v).isSome then .ok ⟨[], true⟩
                  else (readWords opts ws).map (Parsed.cons (o.number, some v))
            else (readWords opts ws).map (Parsed.cons (o.number, none))

/-! ## The parser reads words -/

variable (T : OptList)

/-- A word of two characters or more can be compared with all names. -/
theorem findOpt_eq {opts : List Opt} {w : Bytes} (hw : 2 ≤ w.length) :
    findOpt w opts = .ok (lookupOpt opts w) := by
  have hone : 1 ≤ w.length := by omega
  induction opts with
  | nil => rfl
  | cons o opts ih =>
      have hfits : o.fits w =
          .ok (o.name == some (w.drop 2) || o.shortName == some (w.drop 1)) := by
        unfold Opt.fits strcmpAt
        cases o.name with
        | none =>
            cases o.shortName with
            | none => rfl
            | some s => simp [hone]
        | some n =>
            cases o.shortName with
            | none => by_cases hn : n = w.drop 2 <;> simp [hw, hn]
            | some s => by_cases hn : n = w.drop 2 <;> simp [hw, hone, hn]
      rw [findOpt, hfits, ok_bind, ih, lookupOpt, lookupOpt, List.find?_cons]
      cases o.name == some (w.drop 2) || o.shortName == some (w.drop 1) <;> rfl

/-- A shorter word is read behind its end. -/
theorem findOpt_short {w : Bytes} (hw : w.length < 2) :
    findOpt w T.opts = .error .outOfBounds := by
  obtain ⟨o, opts, hopts⟩ := List.exists_cons_of_ne_nil T.nonempty
  obtain ⟨c, cs, hname⟩ := T.exists_name (o := o) (by simp [hopts])
  have hno : ¬ 2 ≤ w.length := by omega
  simp [hopts, findOpt, Opt.fits, hname, strcmpAt, hno]

theorem number_of_lookupOpt {w : Bytes} {o : Opt} (h : lookupOpt T.opts w = some o) :
    o.number ≠ 0 :=
  T.number o (List.mem_of_find?_eq_some h)

/-- A word that begins with a dash, as a value: `-` is read behind its end. -/
theorem findOpt_value {v : Bytes} (hd : v.head? = some dash) :
    findOpt v T.opts = if v = [dash] then .error .outOfBounds else .ok (lookupOpt T.opts v) := by
  match v, hd with
  | [c], hd =>
      obtain rfl : c = dash := Option.some.inj hd
      rw [if_pos rfl, findOpt_short T (by decide)]
  | c :: d :: ds, hd =>
      have hne : ¬ c :: d :: ds = [dash] := by simp
      rw [if_neg hne, findOpt_eq (by simp)]

/-- One call reads the words from its place on. -/
theorem getopts_eq {argv : List Bytes} (hargc : argv.length ≠ 1)
    (hhelp : (argv.drop 1).any isHelp = false) {i : Nat} (hi : i ≤ argv.length) :
    getopts argv T.opts i = (readOne T.opts (argv.drop i)).map fun r => (r.1, i + r.2) := by
  unfold getopts
  by_cases hend : i = argv.length
  · subst hend
    simp [readOne, Except.map]
  have hlt : i < argv.length := by omega
  have hnot : ¬ (argv.length = 1 ∨ i = argv.length) := by omega
  have hget : argv.getD i [] = argv[i] := by simp [List.getD, hlt]
  simp only [if_neg hnot, hhelp, Bool.false_eq_true, if_false, if_pos hi, hget]
  rw [List.drop_eq_getElem_cons hlt, readOne]
  by_cases hshort : argv[i].length < 2
  · rw [findOpt_short T hshort, if_pos hshort]
    rfl
  rw [findOpt_eq (by omega), if_neg hshort, ok_bind]
  cases lookupOpt T.opts argv[i] with
  | none => by_cases hd : argv[i].head? = some dash <;> simp [hd, Except.map]
  | some o =>
      cases hargs : o.args with
      | false => simp [hargs, Except.map]
      | true =>
          -- an option with a value needs one more word
          by_cases hroom : argv.length ≤ i + 1
          · simp [hargs, hroom, List.drop_eq_nil_of_le hroom, Except.map]
          have hlt' : i + 1 < argv.length := by omega
          have hgetv : argv.getD (i + 1) [] = argv[i + 1] := by simp [List.getD, hlt']
          rw [List.drop_eq_getElem_cons hlt']
          simp only [hargs, if_true, if_neg hroom, hgetv]
          generalize argv[i + 1] = v
          by_cases hd : v.head? = some dash
          · rw [if_pos hd, findOpt_value T hd]
            by_cases hv : v = [dash]
            · simp [hv, Except.map]
            · cases lookupOpt T.opts v <;> simp [hv, hd, Except.map]
          · have hv : v ≠ [dash] := by
              rintro rfl
              exact hd rfl
            simp [hv, hd, Except.map]

/-- Reading words is reading one item after the other. -/
theorem readWords_step (ws : List Bytes) :
    readWords T.opts ws = readOne T.opts ws >>= fun r =>
      match r.1 with
      | .usage => .ok ⟨[], true⟩
      | .ret c args =>
          if c = 0 then .ok ⟨[], false⟩
          else (readWords T.opts (ws.drop r.2)).map (Parsed.cons (c, args)) := by
  match ws with
  | [] => rfl
  | w :: ws =>
      rw [readWords.eq_def, readOne.eq_def]
      dsimp only
      by_cases hshort : w.length < 2
      · simp [hshort]
      simp only [if_neg hshort]
      cases hlook : lookupOpt T.opts w with
      | none => by_cases hd : w.head? = some dash <;> simp [hd]
      | some o =>
          have hnum := number_of_lookupOpt T hlook
          obtain ⟨number, name, shortName, args⟩ := o
          cases args with
          | false => simp [hnum]
          | true =>
              match ws with
              | [] => simp
              | v :: ws =>
                  by_cases hv : v = [dash]
                  · simp [hv]
                  · by_cases hopt : v.head? = some dash ∧ (lookupOpt T.opts v).isSome = true
                    · simp [hv, hopt]
                    · simp only [if_true, if_neg hv, if_neg hopt, ok_bind, if_neg hnum,
                        List.drop_succ_cons, List.drop_zero]

/-- A call that returns an item uses up some words. -/
theorem readOne_used {ws : List Bytes} {c : Int} {args : Option Bytes} {n : Nat} (hc : c ≠ 0)
    (h : readOne T.opts ws = .ok (.ret c args, n)) : 0 < n ∧ n ≤ ws.length := by
  match ws, h with
  | [], h =>
      cases h
      exact absurd rfl hc
  | w :: ws, h =>
      rw [readOne.eq_def] at h
      dsimp only at h
      -- the branches that return an item
      split at h
      · cases h
      split at h
      · split at h
        · cases h
          simp
        · cases h
          exact absurd rfl hc
      · split at h
        · split at h
          · cases h
          · split at h
            · cases h
            · split at h
              · cases h
              · cases h
                simp
        · cases h
          simp

/-- The loop of a program reads the words from its place on; as many calls as
    there are words, and one more, are enough. -/
theorem getoptsLoop_eq {argv : List Bytes} (hargc : argv.length ≠ 1)
    (hhelp : (argv.drop 1).any isHelp = false) {ws : List Bytes} {i fuel : Nat}
    (hws : argv.drop i = ws) (hi : i ≤ argv.length) (hfuel : ws.length < fuel) :
    getoptsLoop argv T.opts fuel i = (readWords T.opts ws).map some := by
  -- induction on the calls that are left
  induction fuel generalizing ws i with
  | zero => exact absurd hfuel (Nat.not_lt_zero _)
  | succ fuel ih =>
      have hlen : ws.length = argv.length - i := by rw [← hws, List.length_drop]
      rw [getoptsLoop, getopts_eq T hargc hhelp hi, hws, readWords_step]
      cases hone : readOne T.opts ws with
      | error f => rfl
      | ok r =>
          obtain ⟨call, n⟩ := r
          cases call with
          | usage => rfl
          | ret c args =>
              simp only [Except.map, ok_bind]
              by_cases hc : c = 0
              · simp [hc]
              · obtain ⟨hpos, hle⟩ := readOne_used T hc hone
                have hdrop : argv.drop (i + n) = ws.drop n := by rw [← hws, List.drop_drop]
                rw [if_neg hc, if_neg hc, ih hdrop (by omega) (by rw [List.length_drop]; omega)]
                cases readWords T.opts (ws.drop n) <;> rfl

/-- A program that is called with some words sees what is read off them, unless
    one asks for help. -/
theorem getoptsLoop_start (prog : Bytes) (ws : List Bytes) :
    getoptsLoop (prog :: ws) T.opts (ws.length + 1) 1 =
      if ws.any isHelp then .ok (some ⟨[], true⟩) else (readWords T.opts ws).map some := by
  by_cases hargc : ws = []
  · subst hargc
    rfl
  have hne : (prog :: ws).length ≠ 1 := by
    simpa using hargc
  by_cases hhelp : ws.any isHelp = true
  · have hpos : 0 < ws.length := List.length_pos_iff.mpr hargc
    have hnot : ¬ ((prog :: ws).length = 1 ∨ 1 = (prog :: ws).length) := by
      simp only [List.length_cons]
      omega
    rw [if_pos hhelp, getoptsLoop]
    simp only [getopts, if_neg hnot, List.drop_succ_cons, List.drop_zero, hhelp, if_true]
    rfl
  · rw [if_neg hhelp]
    exact getoptsLoop_eq T hne (by simpa using hhelp) rfl (by simp) (Nat.lt_succ_self _)

/-! ## What is written is read -/

/-- An option as it is written on a command line: by its name or its character,
    and with its value. -/
structure Setting where
  opt : Opt
  long : Bool
  value : Option Bytes

def Setting.word (s : Setting) : Bytes :=
  if s.long then ascii "--" ++ s.opt.name.getD [] else ascii "-" ++ s.opt.shortName.getD []

def Setting.words (s : Setting) : List Bytes := s.word :: s.value.toList

/-- What `getopts` returns for it. -/
def Setting.item (s : Setting) : Int × Option Bytes := (s.opt.number, s.value)

/-- A value that is not taken for something else. -/
structure PlainValue (opts : List Opt) (v : Bytes) : Prop where
  noHelp : isHelp v = false
  noOption : v.head? = some dash → v ≠ [dash] ∧ lookupOpt opts v = none

variable {T : OptTable}

/-- An option of the table, by a name it has, and with a value if it takes one. -/
structure Setting.Spelled (T : OptTable) (s : Setting) : Prop where
  mem : s.opt ∈ T.opts
  spelled : s.long = true ∨ s.opt.shortName.isSome = true
  hasValue : s.value.isSome = s.opt.args

/-- The value is not taken for something else, either. -/
structure Setting.Proper (T : OptTable) (s : Setting) : Prop extends s.Spelled T where
  plain : ∀ v, s.value = some v → PlainValue T.opts v

/-- A value that does not begin with a dash is no option. -/
theorem plainValue_of_head {v : Bytes} (h : v.head? ≠ some dash) (opts : List Opt) :
    PlainValue opts v where
  noHelp := by
    rw [isHelp, Bool.or_eq_false_iff, beq_eq_false_iff_ne, beq_eq_false_iff_ne]
    constructor <;> rintro rfl <;> exact h rfl
  noOption hd := absurd hd h

/-- An option with a proper value. -/
theorem proper_value {o : Opt} {long : Bool} (ho : o ∈ T.opts)
    (hs : long = true ∨ o.shortName.isSome = true) (ha : o.args = true) {v : Bytes}
    (hv : PlainValue T.opts v) : Setting.Proper T ⟨o, long, some v⟩ where
  mem := ho
  spelled := hs
  hasValue := ha.symm
  plain := by
    rintro _ ⟨⟩
    exact hv

/-- An option without a value. -/
theorem proper_flag {o : Opt} {long : Bool} (ho : o ∈ T.opts)
    (hs : long = true ∨ o.shortName.isSome = true) (ha : o.args = false) :
    Setting.Proper T ⟨o, long, none⟩ where
  mem := ho
  spelled := hs
  hasValue := ha.symm
  plain := nofun

theorem OptTable.eq_of_name {a b : Opt} (ha : a ∈ T.opts) (hb : b ∈ T.opts)
    (h : a.name = b.name) : a = b := by
  by_contra hne
  have hsymm : Std.Symm fun a b : Opt => a.name ≠ b.name := ⟨fun _ _ h => h.symm⟩
  exact T.names.forall ha hb hne h

/-- No two options have the same character. -/
theorem OptTable.eq_of_shortName {a b : Opt} (ha : a ∈ T.opts) (hb : b ∈ T.opts)
    (h : a.shortName = b.shortName) (hs : a.shortName.isSome = true) : a = b := by
  by_contra hne
  have hsymm : Std.Symm fun a b : Opt => a.shortName = none ∨ a.shortName ≠ b.shortName := by
    refine ⟨fun a b hab => ?_⟩
    rcases hab with hab | hab
    · cases hb : b.shortName with
      | none => exact .inl rfl
      | some s => exact .inr (by rw [hab]; nofun)
    · exact .inr hab.symm
  rcases T.shortNames.forall ha hb hne with hnone | hdiff
  · rw [hnone] at hs
    cases hs
  · exact hdiff h

/-- A word stands for the one option that is spelled so. -/
theorem Setting.Spelled.lookup {s : Setting} (hs : s.Spelled T) :
    lookupOpt T.opts s.word = some s.opt := by
  -- every option the word stands for is this one
  have honly : ∀ o ∈ T.opts,
      (o.name == some (s.word.drop 2) || o.shortName == some (s.word.drop 1)) = true ↔
        o = s.opt := by
    intro o ho
    obtain ⟨c, cs, hname⟩ := T.exists_name hs.mem
    obtain ⟨d, ds, hname'⟩ := T.exists_name ho
    simp only [Bool.or_eq_true, beq_iff_eq]
    by_cases hlong : s.long = true
    · have hword : s.word = dash :: dash :: c :: cs := by
        simp [Setting.word, hlong, hname, ascii, dash]
      rw [hword]
      constructor
      · rintro (h | h)
        · exact OptTable.eq_of_name ho hs.mem (h.trans hname.symm)
        · obtain ⟨e, he⟩ := T.exists_short ho h
          cases he
      · rintro rfl
        exact .inl hname
    · have hsome := hs.spelled.resolve_left hlong
      obtain ⟨t, ht⟩ := Option.isSome_iff_exists.mp hsome
      obtain ⟨e, rfl⟩ := T.exists_short hs.mem ht
      have hword : s.word = [dash, e] := by
        simp [Setting.word, hlong, ht, ascii, dash]
      rw [hword]
      constructor
      · rintro (h | h)
        · rw [hname'] at h
          cases h
        · exact (OptTable.eq_of_shortName hs.mem ho (ht.trans h.symm) hsome).symm
      · rintro rfl
        exact .inr ht
  cases hfind : lookupOpt T.opts s.word with
  | none => exact absurd ((honly _ hs.mem).mpr rfl) (List.find?_eq_none.mp hfind _ hs.mem)
  | some o =>
      have hfits := List.find?_some (l := T.opts) hfind
      obtain rfl := (honly o (List.mem_of_find?_eq_some hfind)).mp hfits
      rfl

/-- The word of an option is long enough for both comparisons. -/
theorem Setting.Spelled.length {s : Setting} (hs : s.Spelled T) : ¬ s.word.length < 2 := by
  intro h
  have hfind := hs.lookup
  obtain ⟨c, cs, hname⟩ := T.exists_name hs.mem
  unfold Setting.word at h
  split at h
  · have htwo : (ascii "--").length = 2 := rfl
    rw [hname, Option.getD_some, List.length_append, List.length_cons] at h
    omega
  · obtain ⟨t, ht⟩ := Option.isSome_iff_exists.mp (hs.spelled.resolve_left (by assumption))
    obtain ⟨e, rfl⟩ := T.exists_short hs.mem ht
    simp [ht, ascii] at h

/-- The word of an option is no request for help. -/
theorem Setting.Spelled.noHelp {s : Setting} (hs : s.Spelled T) : isHelp s.word = false := by
  obtain ⟨hname, hshort⟩ := T.noHelp _ hs.mem
  obtain ⟨c, cs, hn⟩ := T.exists_name hs.mem
  rw [isHelp, Bool.or_eq_false_iff, beq_eq_false_iff_ne, beq_eq_false_iff_ne]
  unfold Setting.word
  split
  · rw [hn, Option.getD_some]
    refine ⟨fun h => ?_, fun h => hname ?_⟩
    · simp [ascii] at h
    · rw [hn]
      have heq : ascii "--" ++ c :: cs = ascii "--" ++ ascii "help" := h
      exact congrArg some (List.append_cancel_left heq)
  · obtain ⟨t, ht⟩ := Option.isSome_iff_exists.mp (hs.spelled.resolve_left (by assumption))
    obtain ⟨e, rfl⟩ := T.exists_short hs.mem ht
    rw [ht, Option.getD_some]
    refine ⟨fun h => hshort ?_, fun h => ?_⟩
    · rw [ht]
      have heq : ascii "-" ++ [e] = ascii "-" ++ ascii "h" := h
      exact congrArg some (List.append_cancel_left heq)
    · simp [ascii] at h

/-- Only a value can be a request for help. -/
theorem any_isHelp_settings {ss : List Setting} (hss : ∀ s ∈ ss, s.Spelled T) :
    (ss.flatMap Setting.words).any isHelp = (ss.filterMap Setting.value).any isHelp := by
  induction ss with
  | nil => rfl
  | cons s ss ih =>
      have hs := hss s List.mem_cons_self
      have hrest := ih fun t ht => hss t (List.mem_cons_of_mem s ht)
      rw [List.flatMap_cons, List.any_append, hrest, Setting.words, List.any_cons, hs.noHelp]
      cases hv : s.value <;> simp [hv]

/-- What a value is taken for, if not for a value: `-` is read behind its end, and
    what spells an option ends the program. -/
def taken (opts : List Opt) (v : Bytes) : Option Fault :=
  if v = [dash] then some .outOfBounds
  else if v.head? = some dash ∧ (lookupOpt opts v).isSome then some (.exit 0)
  else none

/-- Settings with any values at all: the first that is taken for something else
    ends the program. -/
theorem readWords_spelled {β : Type} {ss : List Setting} (hss : ∀ s ∈ ss, s.Spelled T)
    (k : Parsed → Except Fault β) :
    (readWords T.opts (ss.flatMap Setting.words) >>= fun p =>
      if p.usage then .error (.exit 0) else k p) =
        match (ss.filterMap Setting.value).findSome? (taken T.opts) with
        | some f => .error f
        | none => k ⟨ss.map Setting.item, false⟩ := by
  induction ss generalizing k with
  | nil => rfl
  | cons s ss ih =>
      have hs := hss s List.mem_cons_self
      -- what is read of the others is put behind this one
      have hcons : (((readWords T.opts (ss.flatMap Setting.words)).map (Parsed.cons s.item)) >>=
          fun p => if p.usage then .error (.exit 0) else k p) =
            match (ss.filterMap Setting.value).findSome? (taken T.opts) with
            | some f => .error f
            | none => k ⟨s.item :: ss.map Setting.item, false⟩ := by
        refine Eq.trans ?_ (ih (fun t ht => hss t (List.mem_cons_of_mem s ht)) fun p =>
          k (p.cons s.item))
        cases readWords T.opts (ss.flatMap Setting.words) <;> rfl
      rw [List.flatMap_cons, Setting.words, List.cons_append, readWords.eq_def]
      simp only [if_neg hs.length, hs.lookup]
      -- a flag is one word, an option with a value two
      cases hv : s.value with
      | none =>
          have hargs : s.opt.args = false := by rw [← hs.hasValue, hv, Option.isSome_none]
          simp only [Setting.item, hv] at hcons
          simp only [hargs, Bool.false_eq_true, if_false, Option.toList_none, List.nil_append,
            List.filterMap_cons, hv, List.map_cons, Setting.item]
          exact hcons
      | some v =>
          have hargs : s.opt.args = true := by rw [← hs.hasValue, hv, Option.isSome_some]
          simp only [Setting.item, hv] at hcons
          simp only [hargs, if_true, Option.toList_some, List.singleton_append,
            List.filterMap_cons, hv, List.findSome?_cons, List.map_cons, Setting.item, taken]
          by_cases hdash : v = [dash]
          · simp only [if_pos hdash]
            rfl
          by_cases hopt : v.head? = some dash ∧ (lookupOpt T.opts v).isSome = true
          · simp only [if_neg hdash, if_pos hopt]
            rfl
          · simp only [if_neg hdash, if_neg hopt]
            exact hcons

/-- A proper value is none of these. -/
theorem PlainValue.not_taken {opts : List Opt} {v : Bytes} (h : PlainValue opts v) :
    taken opts v = none := by
  have hdash : v ≠ [dash] := by
    rintro rfl
    exact (h.noOption rfl).1 rfl
  have hopt : ¬ (v.head? = some dash ∧ (lookupOpt opts v).isSome = true) := by
    rintro ⟨hd, hsome⟩
    rw [(h.noOption hd).2] at hsome
    cases hsome
  rw [taken, if_neg hdash, if_neg hopt]

/-- Settings are read off their words one after the other. -/
theorem readWords_settings {ss : List Setting} (hss : ∀ s ∈ ss, s.Proper T) :
    readWords T.opts (ss.flatMap Setting.words) = .ok ⟨ss.map Setting.item, false⟩ := by
  have hread := readWords_spelled (fun s hs => (hss s hs).toSpelled) Except.ok
  have hnone : (ss.filterMap Setting.value).findSome? (taken T.opts) = none := by
    rw [List.findSome?_eq_none_iff]
    intro v hv
    obtain ⟨s, hs, hsv⟩ := List.mem_filterMap.mp hv
    exact ((hss s hs).plain v hsv).not_taken
  rw [hnone] at hread
  cases hwords : readWords T.opts (ss.flatMap Setting.words) with
  | error f =>
      rw [hwords] at hread
      cases hread
  | ok p =>
      rw [hwords, ok_bind] at hread
      split at hread
      · cases hread
      · exact hread

/-- What is written on a command line is what the program sees, in that order. -/
theorem getopts_round_trip (prog : Bytes) {ss : List Setting} (hss : ∀ s ∈ ss, s.Proper T) :
    getoptsLoop (prog :: ss.flatMap Setting.words) T.opts
      ((ss.flatMap Setting.words).length + 1) 1 = .ok (some ⟨ss.map Setting.item, false⟩) := by
  have hhelp : (ss.filterMap Setting.value).any isHelp = false := by
    rw [List.any_eq_false]
    intro v hv
    obtain ⟨s, hs, hsv⟩ := List.mem_filterMap.mp hv
    simp [((hss s hs).plain v hsv).noHelp]
  rw [getoptsLoop_start, any_isHelp_settings fun s hs => (hss s hs).toSpelled, hhelp,
    if_neg Bool.false_ne_true, readWords_settings hss]
  rfl

end Webstore
