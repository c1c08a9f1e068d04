/-
  Webstore.Scripts.Container

  The way of the settings through the containers, from the environment to what
  `parse_args` leaves.  A setting without blanks and pattern characters gets
  through the script as it was given, and so does the message of `ws_post`,
  which is quoted.  But `getopts` then takes some of them for something else:
  `misread` says which, and how the program ends: with 0 and nothing done, or
  on a read behind the end of the word `-`.
-/
import Webstore.Scripts
import Webstore.Setup.Config

namespace Webstore

open Webstore.Libc

variable {getenv : Bytes → Option Bytes} {glob : Bytes → List Bytes} {T : OptTable}

/-! ## Words -/

/-- A value the shell leaves alone. -/
def Unsplit (v : Bytes) : Prop := ∀ c ∈ v, isIfs c = false ∧ isPattern c = false

instance (v : Bytes) : Decidable (Unsplit v) :=
  decidable_of_iff (v.all fun c => !isIfs c && !isPattern c) (by simp [Unsplit])

/-- A value without blanks goes into one field. -/
theorem splitValue_unsplit {v : Bytes} (h : Unsplit v) (field : Option Bytes) :
    splitValue field v = ([], if v = [] then field else some (field.getD [] ++ v)) := by
  induction v generalizing field with
  | nil => rfl
  | cons c v ih =>
      obtain ⟨hc, hv⟩ := List.forall_mem_cons.mp h
      rw [splitValue, hc.1, if_neg Bool.false_ne_true, ih hv]
      by_cases hnil : v = []
      · simp [hnil]
      · simp [hnil]

/-- A blank ends a field. -/
theorem splitValue_blank {v : Bytes} (h : Unsplit v) (hne : v ≠ []) (w : Bytes) :
    splitValue none (v ++ 32 :: w) = (v :: (splitValue none w).1, (splitValue none w).2) := by
  have hgen : ∀ (v field : Bytes), Unsplit v →
      splitValue (some field) (v ++ 32 :: w) =
        ((field ++ v) :: (splitValue none w).1, (splitValue none w).2) := by
    intro v
    induction v with
    | nil =>
        intro field _
        have hblank : isIfs 32 = true := rfl
        simp [splitValue, hblank]
    | cons c v ih =>
        intro field hv
        obtain ⟨hc, hv⟩ := List.forall_mem_cons.mp hv
        rw [List.cons_append, splitValue, hc.1, if_neg Bool.false_ne_true, ih _ hv]
        simp
  obtain ⟨c, v, rfl⟩ := List.exists_cons_of_ne_nil hne
  obtain ⟨hc, hv⟩ := List.forall_mem_cons.mp h
  rw [List.cons_append, splitValue, hc.1, if_neg Bool.false_ne_true, hgen v _ hv]
  rfl

/-- Fields that are no patterns stay. -/
theorem expandWord_eq {parts : List WordPart} {fields : List Bytes}
    (h : splitWord none parts = fields) (hfields : ∀ f ∈ fields, Unsplit f) :
    expandWord glob parts = fields := by
  rw [expandWord, h]
  clear h
  induction fields with
  | nil => rfl
  | cons f fields ih =>
      obtain ⟨hf, hfields⟩ := List.forall_mem_cons.mp hfields
      have hany : f.any isPattern = false := List.any_eq_false.mpr fun c hc => by simp [(hf c hc).2]
      rw [List.flatMap_cons, ih hfields, hany, Bool.and_false, if_neg Bool.false_ne_true]
      rfl

theorem expandWord_text (s : Bytes) : expandWord glob [.text s] = [s] := by
  simp [expandWord, splitWord, WordPart.isValue]

theorem expandWord_value {v : Bytes} (h : Unsplit v) (hne : v ≠ []) :
    expandWord glob [.value v] = [v] :=
  expandWord_eq (by simp [splitWord, splitValue_unsplit h, hne]) (by simpa using h)

/-- An option and its value from one variable. -/
theorem expandWord_pair {v w : Bytes} (hv : Unsplit v) (hvne : v ≠ []) (hw : Unsplit w)
    (hwne : w ≠ []) : expandWord glob [.value (v ++ 32 :: w)] = [v, w] :=
  expandWord_eq (by simp [splitWord, splitValue_blank hv hvne, splitValue_unsplit hw, hwne])
    (by simpa using ⟨hv, hw⟩)

/-- Two values with a text between them. -/
theorem expandWord_joined {v s w : Bytes} (hv : Unsplit v) (hvne : v ≠ []) (hs : Unsplit s)
    (hw : Unsplit w) (hwne : w ≠ []) :
    expandWord glob [.value v, .text s, .value w] = [v ++ s ++ w] := by
  refine expandWord_eq ?_ ?_
  · simp [splitWord, splitValue_unsplit hv, splitValue_unsplit hw, hvne, hwne]
  · rw [List.forall_mem_singleton]
    intro c hc
    rcases List.mem_append.mp hc with hc | hc
    · exact (List.mem_append.mp hc).elim (hv c) (hs c)
    · exact hw c hc

/-! ## Settings -/

/-- How a program ends that is given these values and takes one for something
    else.  A request for help comes first, wherever it is. -/
def misread (opts : List Opt) (vs : List Bytes) : Option Fault :=
  if vs.any isHelp then some (.exit 0) else vs.findSome? (taken opts)

/-- Settings are scanned unless a value is misread. -/
theorem scanArgs_spelled {σ : Type} {switch : σ → Int → Bytes → σ} {g : σ} {prog : Bytes}
    {ss : List Setting} (hss : ∀ s ∈ ss, s.Spelled T) :
    scanArgs T switch g prog (ss.flatMap Setting.words) =
      match misread T.opts (ss.filterMap Setting.value) with
      | some f => .error f
      | none =>
          .ok (some (ss.foldl (fun g s => switch g s.opt.number (s.value.getD [])) g)) := by
  rw [scanArgs_eq, any_isHelp_settings hss, misread]
  by_cases hany : (ss.filterMap Setting.value).any isHelp = true
  · rw [if_pos hany, if_pos hany]
  · have hread := readWords_spelled hss fun p =>
      .ok (some (p.items.foldl (fun g item => switch g item.1 (item.2.getD [])) g))
    simp only [List.foldl_map, Setting.item] at hread
    rw [if_neg hany, if_neg hany]
    exact hread

theorem spelled_flag {o : Opt} {long : Bool} (ho : o ∈ T.opts)
    (hs : long = true ∨ o.shortName.isSome = true) (ha : o.args = false) :
    Setting.Spelled T ⟨o, long, none⟩ := ⟨ho, hs, ha.symm⟩

theorem spelled_value {o : Opt} {long : Bool} (ho : o ∈ T.opts)
    (hs : long = true ∨ o.shortName.isSome = true) (ha : o.args = true) (v : Bytes) :
    Setting.Spelled T ⟨o, long, some v⟩ := ⟨ho, hs, ha.symm⟩

/-! ## The clients -/

/-- `-s`, if it is there. -/
def secureSettings (o : Opt) (getenv : Bytes → Option Bytes) : List Setting :=
  if secureArg getenv = [] then [] else [⟨o, false, none⟩]

/-- `SECURE` is empty or `-s`. -/
theorem secureArg_cases (getenv : Bytes → Option Bytes) :
    secureArg getenv = [] ∨ secureArg getenv = ascii "-s" := by
  unfold secureArg
  dsimp only
  split
  · exact .inl rfl
  split
  · exact .inl rfl
  split
  · exact .inl rfl
  split
  · exact .inl rfl
  · exact .inr rfl

/-- It comes out as the option, or as no word at all. -/
theorem expandWord_secure {o : Opt} (ho : o.shortName = some (ascii "s")) :
    expandWord glob [.value (secureArg getenv)] =
      (secureSettings o getenv).flatMap Setting.words := by
  rcases secureArg_cases getenv with h | h
  · rw [secureSettings, h, if_pos rfl]
    rfl
  · rw [secureSettings, h, if_neg (by decide), expandWord_value (by decide) (by decide)]
    simp [Setting.words, Setting.word, ho]
    decide

/-- The option is in the table of either client. -/
theorem secureSettings_spelled {o : Opt} (ho : o ∈ T.opts) (hs : o.shortName.isSome = true)
    (ha : o.args = false) : ∀ s ∈ secureSettings o getenv, s.Spelled T := by
  intro s hmem
  unfold secureSettings at hmem
  split at hmem
  · cases hmem
  · obtain rfl := List.mem_singleton.mp hmem
    exact spelled_flag ho (.inr hs) ha

/-- `-s` has no value that could be misread. -/
theorem secureSettings_values (o : Opt) (getenv : Bytes → Option Bytes) :
    (secureSettings o getenv).filterMap Setting.value = [] := by
  unfold secureSettings
  split <;> rfl

/-- The settings of `ws_post`. -/
def wspostSettings (getenv : Bytes → Option Bytes) : List Setting :=
  secureSettings (.entry 7 "https" "s" false) getenv ++
    [⟨.entry 1 "host" "H" true, false, some (shellVar getenv "WSHOST")⟩,
      ⟨.entry 2 "port" "P" true, false, some (shellVar getenv "WSPORT")⟩,
      ⟨.entry 3 "alg" "a" true, false, some (shellVar getenv "ALG")⟩,
      ⟨.entry 5 "msg" "m" true, false, some (shellVar getenv "MSG")⟩]

/-- They are options of `ws_post`, whatever their values. -/
theorem wspostSettings_spelled (getenv : Bytes → Option Bytes) :
    ∀ s ∈ wspostSettings getenv, s.Spelled wsPostOpts := by
  intro s hs
  rcases List.mem_append.mp hs with hs | hs
  · exact secureSettings_spelled (by decide) rfl rfl s hs
  · simp only [List.mem_cons, List.not_mem_nil, or_false] at hs
    rcases hs with rfl | rfl | rfl | rfl
    all_goals exact spelled_value (by decide) (.inr rfl) rfl _

/-- What the options of `ws_post` leave behind. -/
theorem foldl_wspostSettings (getenv : Bytes → Option Bytes) :
    (wspostSettings getenv).foldl
      (fun g s => wsPostSwitch g s.opt.number (s.value.getD [])) .start =
        ⟨some (shellVar getenv "WSHOST"), toUShort (atoi (shellVar getenv "WSPORT")),
          atoi (shellVar getenv "ALG"), none, some (shellVar getenv "MSG"), none, 1,
          secureArg getenv ≠ [], false⟩ := by
  unfold wspostSettings secureSettings
  by_cases hsec : secureArg getenv = []
  · rw [if_pos hsec]
    simp [hsec, wsPostSwitch, PostGlobals.start, Opt.entry]
  · rw [if_neg hsec]
    simp [hsec, wsPostSwitch, PostGlobals.start, Opt.entry]

/-- A message on the command line, and no token. -/
theorem wsPostChecks_msg (files : Bytes → FileAt) (host msg : Bytes) (port : UInt16) (alg : Int)
    (verbosity : Int) (secure comp : Bool) (hmsg : msg ≠ []) :
    wsPostChecks files ⟨some host, port, alg, none, some msg, none, verbosity, secure, comp⟩ =
      if port = 0 ∨ ¬ (1 ≤ alg ∧ alg ≤ 6) then .error (.exit exitFailure)
      else .ok (⟨host, port, alg, none, secure, comp, msg⟩, verbosity) := by
  by_cases hport : port = 0
  · simp [wsPostChecks, hport]
  by_cases halg : 1 ≤ alg ∧ alg ≤ 6
  · have hargs : tokenArgs none alg = true := by
      simp only [tokenArgs, decide_eq_true_eq]
      omega
    simp [wsPostChecks, hport, hargs, halg, hmsg]
  · have hargs : tokenArgs none alg = false := by
      simp only [tokenArgs, decide_eq_false_iff_not]
      omega
    simp [wsPostChecks, hport, hargs, halg]

/-- What becomes of the settings of the container of `ws_post`.  The message is
    quoted and can be anything. -/
theorem wspost_container {files : Bytes → FileAt} {prog : Bytes}
    (hhost : Unsplit (shellVar getenv "WSHOST")) (hport : Unsplit (shellVar getenv "WSPORT"))
    (halg : Unsplit (shellVar getenv "ALG")) :
    (wspostScript getenv glob >>= wsPostParseArgs files prog) =
      if shellVar getenv "WSHOST" = [] ∨ shellVar getenv "WSPORT" = [] ∨
          shellVar getenv "ALG" = [] ∨ shellVar getenv "MSG" = [] then .error (.exit exitFailure)
      else
        match misread wsPostOpts.opts [shellVar getenv "WSHOST", shellVar getenv "WSPORT",
          shellVar getenv "ALG", shellVar getenv "MSG"] with
        | some f => .error f
        | none =>
            if toUShort (atoi (shellVar getenv "WSPORT")) = 0 ∨
                ¬ (1 ≤ atoi (shellVar getenv "ALG") ∧ atoi (shellVar getenv "ALG") ≤ 6) then
              .error (.exit exitFailure)
            else
              .ok (some (⟨shellVar getenv "WSHOST", toUShort (atoi (shellVar getenv "WSPORT")),
                atoi (shellVar getenv "ALG"), none, secureArg getenv ≠ [], false,
                shellVar getenv "MSG"⟩, 1)) := by
  by_cases hempty : shellVar getenv "WSHOST" = [] ∨ shellVar getenv "WSPORT" = [] ∨
      shellVar getenv "ALG" = [] ∨ shellVar getenv "MSG" = []
  · rw [if_pos hempty]
    rcases hempty with h | h | h | h
    all_goals simp [wspostScript, h, exitFailure]
  rw [if_neg hempty]
  simp only [not_or] at hempty
  obtain ⟨hhne, hpne, hane, hmne⟩ := hempty
  -- the script writes the settings down
  have hscript : wspostScript getenv glob =
      .ok ((wspostSettings getenv).flatMap Setting.words) := by
    simp only [wspostScript, if_neg hhne, if_neg hpne, if_neg hane, if_neg hmne,
      List.flatMap_cons, List.flatMap_nil, expandWord_text, expandWord_value hhost hhne,
      expandWord_value hport hpne, expandWord_value halg hane,
      expandWord_secure (o := .entry 7 "https" "s" false) rfl]
    simp [wspostSettings, Setting.words, Setting.word]
    decide
  have hvalues : (wspostSettings getenv).filterMap Setting.value = [shellVar getenv "WSHOST",
      shellVar getenv "WSPORT", shellVar getenv "ALG", shellVar getenv "MSG"] := by
    rw [wspostSettings, List.filterMap_append, secureSettings_values]
    rfl
  rw [hscript, ok_bind, wsPostParseArgs, scanArgs_spelled (wspostSettings_spelled getenv),
    hvalues, foldl_wspostSettings]
  -- a value is misread, or all are taken as they are
  cases misread wsPostOpts.opts [shellVar getenv "WSHOST", shellVar getenv "WSPORT",
      shellVar getenv "ALG", shellVar getenv "MSG"] with
  | some f => rfl
  | none =>
      simp only [ok_bind, wsPostChecks_msg files _ _ _ _ _ _ _ hmne]
      split
      · rfl
      · rfl

/-- An environment of assignments. -/
def envOf (vars : List (String × String)) (name : Bytes) : Option Bytes :=
  (vars.find? fun v => ascii v.1 == name).map fun v => ascii v.2

/-- A message that looks like an option. -/
def verboseEnv : Bytes → Option Bytes :=
  envOf [("WSHOST", "172.17.0.1"), ("WSPORT", "80"), ("ALG", "1"), ("MSG", "-v")]

/-- It is not posted, and the container reports success. -/
theorem wspost_container_verbose :
    (wspostScript verboseEnv (fun w => [w]) >>=
      wsPostParseArgs (fun _ => .missing) (ascii "/app/ws_post.exe")) = .error (.exit 0) :=
  (wspost_container (by decide) (by decide) (by decide)).trans (by
    have hmisread : misread wsPostOpts.opts [shellVar verboseEnv "WSHOST",
      shellVar verboseEnv "WSPORT", shellVar verboseEnv "ALG", shellVar verboseEnv "MSG"] =
        some (.exit 0) := by decide
    rw [if_neg (by decide), hmisread])

/-- The settings of `ws_get`. -/
def wsgetSettings (getenv : Bytes → Option Bytes) : List Setting :=
  secureSettings (.entry 5 "https" "s" false) getenv ++
    [⟨.entry 1 "host" "H" true, false, some (shellVar getenv "WSHOST")⟩,
      ⟨.entry 2 "port" "P" true, false, some (shellVar getenv "WSPORT")⟩,
      ⟨.entry 3 "token" "t" true, false, some (shellVar getenv "TOKEN")⟩]

/-- They are options of `ws_get`, whatever their values. -/
theorem wsgetSettings_spelled (getenv : Bytes → Option Bytes) :
    ∀ s ∈ wsgetSettings getenv, s.Spelled wsGetOpts := by
  intro s hs
  rcases List.mem_append.mp hs with hs | hs
  · exact secureSettings_spelled (by decide) rfl rfl s hs
  · simp only [List.mem_cons, List.not_mem_nil, or_false] at hs
    rcases hs with rfl | rfl | rfl
    all_goals exact spelled_value (by decide) (.inr rfl) rfl _

/-- What the options of `ws_get` leave behind. -/
theorem foldl_wsgetSettings (getenv : Bytes → Option Bytes) :
    (wsgetSettings getenv).foldl
      (fun g s => wsGetSwitch g s.opt.number (s.value.getD [])) .start =
        ⟨some (shellVar getenv "WSHOST"), toUShort (atoi (shellVar getenv "WSPORT")),
          some (shellVar getenv "TOKEN"), none, secureArg getenv ≠ []⟩ := by
  unfold wsgetSettings secureSettings
  by_cases hsec : secureArg getenv = []
  · rw [if_pos hsec]
    simp [hsec, wsGetSwitch, GetGlobals.start, Opt.entry]
  · rw [if_neg hsec]
    simp [hsec, wsGetSwitch, GetGlobals.start, Opt.entry]

/-- What becomes of the settings of the container of `ws_get`. -/
theorem wsget_container {prog : Bytes} (hhost : Unsplit (shellVar getenv "WSHOST"))
    (hport : Unsplit (shellVar getenv "WSPORT")) (htoken : Unsplit (shellVar getenv "TOKEN")) :
    (wsgetScript getenv glob >>= wsGetParseArgs prog) =
      if shellVar getenv "WSHOST" = [] ∨ shellVar getenv "WSPORT" = [] ∨
          shellVar getenv "TOKEN" = [] then .error (.exit exitFailure)
      else
        match misread wsGetOpts.opts [shellVar getenv "WSHOST", shellVar getenv "WSPORT",
          shellVar getenv "TOKEN"] with
        | some f => .error f
        | none =>
            if toUShort (atoi (shellVar getenv "WSPORT")) = 0 then .error (.exit exitFailure)
            else
              .ok (some ⟨shellVar getenv "WSHOST", toUShort (atoi (shellVar getenv "WSPORT")),
                shellVar getenv "TOKEN", false, secureArg getenv ≠ []⟩) := by
  by_cases hempty : shellVar getenv "WSHOST" = [] ∨ shellVar getenv "WSPORT" = [] ∨
      shellVar getenv "TOKEN" = []
  · rw [if_pos hempty]
    rcases hempty with h | h | h
    all_goals simp [wsgetScript, h, exitFailure]
  rw [if_neg hempty]
  simp only [not_or] at hempty
  obtain ⟨hhne, hpne, htne⟩ := hempty
  -- the script writes the settings down
  have hscript : wsgetScript getenv glob =
      .ok ((wsgetSettings getenv).flatMap Setting.words) := by
    simp only [wsgetScript, if_neg hhne, if_neg hpne, if_neg htne, List.flatMap_cons,
      List.flatMap_nil, expandWord_text, expandWord_value hhost hhne,
      expandWord_value hport hpne, expandWord_value htoken htne,
      expandWord_secure (o := .entry 5 "https" "s" false) rfl]
    simp [wsgetSettings, Setting.words, Setting.word]
    decide
  have hvalues : (wsgetSettings getenv).filterMap Setting.value = [shellVar getenv "WSHOST",
      shellVar getenv "WSPORT", shellVar getenv "TOKEN"] := by
    rw [wsgetSettings, List.filterMap_append, secureSettings_values]
    rfl
  rw [hscript, ok_bind, wsGetParseArgs, scanArgs_spelled (wsgetSettings_spelled getenv),
    hvalues, foldl_wsgetSettings]
  cases misread wsGetOpts.opts [shellVar getenv "WSHOST", shellVar getenv "WSPORT",
      shellVar getenv "TOKEN"] with
  | some f => rfl
  | none =>
      by_cases hzero : toUShort (atoi (shellVar getenv "WSPORT")) = 0
      · simp [wsGetChecks, hzero]
      · simp [wsGetChecks, hzero]

/-! ## The server -/

/-- Settings of the server that are single words, or not set. -/
structure UnsplitServer (getenv : Bytes → Option Bytes) : Prop where
  httpport : Unsplit (shellVar getenv "HTTPPORT")
  redisip : Unsplit (shellVar getenv "REDISIP")
  redisport : Unsplit (shellVar getenv "REDISPORT")
  certfile : Unsplit (shellVar getenv "CERTFILE")
  keyfile : Unsplit (shellVar getenv "KEYFILE")
  maxpostsize : Unsplit (shellVar getenv "MAXPOSTSIZE")

/-- A default is taken where nothing is set. -/
theorem unsplit_default {name value : String} (h : Unsplit (shellVar getenv name))
    (hvalue : Unsplit (ascii value)) : Unsplit (shellDefault getenv name value) := by
  unfold shellDefault
  split
  · exact hvalue
  · exact h

theorem shellDefault_ne {name value : String} (hvalue : ascii value ≠ []) :
    shellDefault getenv name value ≠ [] := by
  unfold shellDefault
  split
  · exact hvalue
  · assumption

/-- The value of `--rtcp`. -/
def redisDest (getenv : Bytes → Option Bytes) : Bytes :=
  shellDefault getenv "REDISIP" "127.0.0.1" ++ ascii ":" ++ shellDefault getenv "REDISPORT" "6379"

/-- What the server is to be told. -/
def containerOpts (getenv : Bytes → Option Bytes) : SrvOpts where
  httpIp := none
  httpPort := toUShort (atoi (shellDefault getenv "HTTPPORT" "8080"))
  useThreads := shellVar getenv "MULTITHREAD" ≠ []
  maxPostDataSize :=
    if shellVar getenv "MAXPOSTSIZE" = [] then 20 * 1024 * 1024
    else atol (shellVar getenv "MAXPOSTSIZE")
  certfile := (httpsPaths getenv).map Prod.fst
  keyfile := (httpsPaths getenv).map Prod.snd
  logfile := some (ascii "/log/webstore.log")
  rsock := none
  -- an address with a colon in it is cut there
  rip := some ((redisDest getenv).takeWhile (· ≠ colon))
  rport := toUShort (atoi (((redisDest getenv).dropWhile (· ≠ colon)).drop 1))

/-- `MTARG`, `CERTARG` with `KEYARG`, and `DSIZEARG` as settings. -/
def threadSettings (getenv : Bytes → Option Bytes) : List Setting :=
  if shellVar getenv "MULTITHREAD" = [] then [] else [⟨.entry 3 "tpc" "t" false, false, none⟩]

def httpsSettings (paths : Option (Bytes × Bytes)) : List Setting :=
  match paths with
  | some (certpath, keypath) =>
      [⟨.entry 7 "cert" none true, true, some certpath⟩,
        ⟨.entry 8 "key" none true, true, some keypath⟩]
  | none => []

def sizeSettings (getenv : Bytes → Option Bytes) : List Setting :=
  if shellVar getenv "MAXPOSTSIZE" = [] then []
  else [⟨.entry 9 "dsize" none true, true, some (shellVar getenv "MAXPOSTSIZE")⟩]

/-- The settings on the command line of the server. -/
def webstoreSettings (getenv : Bytes → Option Bytes) : List Setting :=
  [⟨.entry 2 "port" "P" true, false, some (shellDefault getenv "HTTPPORT" "8080")⟩,
    ⟨.entry 6 "rtcp" none true, true, some (redisDest getenv)⟩,
    ⟨.entry 4 "log" "l" true, false, some (ascii "/log/webstore.log")⟩] ++
  (threadSettings getenv ++ (httpsSettings (httpsPaths getenv) ++ sizeSettings getenv))

/-- They are options of the server, whatever their values. -/
theorem webstoreSettings_spelled (getenv : Bytes → Option Bytes) :
    ∀ s ∈ webstoreSettings getenv, s.Spelled webstoreOpts := by
  intro s hs
  rcases List.mem_append.mp hs with hs | hs
  · simp only [List.mem_cons, List.not_mem_nil, or_false] at hs
    rcases hs with rfl | rfl | rfl
    · exact spelled_value (by decide) (.inr rfl) rfl _
    · exact spelled_value (by decide) (.inl rfl) rfl _
    · exact spelled_value (by decide) (.inr rfl) rfl _
  rcases List.mem_append.mp hs with hs | hs
  · unfold threadSettings at hs
    split at hs
    · cases hs
    · obtain rfl := List.mem_singleton.mp hs
      exact spelled_flag (by decide) (.inr rfl) rfl
  rcases List.mem_append.mp hs with hs | hs
  · unfold httpsSettings at hs
    split at hs
    · simp only [List.mem_cons, List.not_mem_nil, or_false] at hs
      rcases hs with rfl | rfl
      all_goals exact spelled_value (by decide) (.inl rfl) rfl _
    · cases hs
  · unfold sizeSettings at hs
    split at hs
    · cases hs
    · obtain rfl := List.mem_singleton.mp hs
      exact spelled_value (by decide) (.inl rfl) rfl _

/-- A value that does not begin with a dash is never misread. -/
theorem misread_plain {opts : List Opt} {v : Bytes} (h : v.head? ≠ some dash)
    (us vs : List Bytes) : misread opts (us ++ v :: vs) = misread opts (us ++ vs) := by
  have hhelp : isHelp v = false := (plainValue_of_head h opts).noHelp
  have hne : v ≠ [dash] := by
    rintro rfl
    exact h rfl
  have htaken : taken opts v = none := by
    rw [taken, if_neg hne, if_neg fun hopt => h hopt.1]
  simp [misread, hhelp, List.findSome?_append, htaken]

/-- The log and the files of HTTPS are named by paths, so that only the port,
    the address of Redis and the size can be misread. -/
theorem misread_webstoreSettings (getenv : Bytes → Option Bytes) (opts : List Opt) :
    misread opts ((webstoreSettings getenv).filterMap Setting.value) =
      misread opts [shellDefault getenv "HTTPPORT" "8080", redisDest getenv,
        shellVar getenv "MAXPOSTSIZE"] := by
  have hthread : (threadSettings getenv).filterMap Setting.value = [] := by
    unfold threadSettings
    split <;> rfl
  -- an empty size is no setting, and would not be misread either
  have hsize : ∀ us, misread opts (us ++ (sizeSettings getenv).filterMap Setting.value) =
      misread opts (us ++ [shellVar getenv "MAXPOSTSIZE"]) := by
    intro us
    unfold sizeSettings
    split
    · rename_i hnil
      rw [hnil, misread_plain (by nofun)]
      rfl
    · rfl
  -- a path begins with a slash
  have hhttps : ∀ us vs, misread opts
      (us ++ ((httpsSettings (httpsPaths getenv)).filterMap Setting.value ++ vs)) =
        misread opts (us ++ vs) := by
    intro us vs
    unfold httpsPaths
    dsimp only
    split
    · have hslash : ∀ file, (ascii "/cert/" ++ file).head? ≠ some dash := fun _ => nofun
      exact (misread_plain (hslash _) _ _).trans (misread_plain (hslash _) _ _)
    · rfl
  have hlog : (ascii "/log/webstore.log").head? ≠ some dash := by decide
  have hvalues : (webstoreSettings getenv).filterMap Setting.value =
      [shellDefault getenv "HTTPPORT" "8080", redisDest getenv] ++
        ascii "/log/webstore.log" :: ((httpsSettings (httpsPaths getenv)).filterMap Setting.value ++
          (sizeSettings getenv).filterMap Setting.value) := by
    rw [webstoreSettings, List.filterMap_append, List.filterMap_append, List.filterMap_append,
      hthread]
    rfl
  rw [hvalues, misread_plain hlog, hhttps, hsize]
  rfl

/-! ## The words of the server -/

/-- Both files of HTTPS can be read, if it is asked for. -/
def HttpsReadable (getenv : Bytes → Option Bytes) (readable : Bytes → Bool) : Prop :=
  ∀ p ∈ httpsPaths getenv, readable p.1 = true ∧ readable p.2 = true

instance (readable : Bytes → Bool) : Decidable (HttpsReadable getenv readable) :=
  inferInstanceAs (Decidable (∀ p ∈ httpsPaths getenv, _))

/-- `MTARG` comes out as `-t`, or as no word. -/
theorem expandWord_thread (getenv : Bytes → Option Bytes) :
    expandWord glob [.value (if shellVar getenv "MULTITHREAD" ≠ [] then ascii "-t" else [])] =
      (threadSettings getenv).flatMap Setting.words := by
  unfold threadSettings
  by_cases h : shellVar getenv "MULTITHREAD" = []
  · rw [if_pos h, if_neg (not_not_intro h)]
    rfl
  · rw [if_neg h, if_pos h, expandWord_value (by decide) (by decide)]
    decide

/-- `DSIZEARG` comes out as two words, or as none. -/
theorem expandWord_size (h : UnsplitServer getenv) :
    expandWord glob [.value (if shellVar getenv "MAXPOSTSIZE" ≠ [] then
      ascii "--dsize " ++ shellVar getenv "MAXPOSTSIZE" else [])] =
      (sizeSettings getenv).flatMap Setting.words := by
  unfold sizeSettings
  by_cases hne : shellVar getenv "MAXPOSTSIZE" = []
  · rw [if_pos hne, if_neg (not_not_intro hne)]
    rfl
  · have hsplit : ascii "--dsize " ++ shellVar getenv "MAXPOSTSIZE" =
        ascii "--dsize" ++ 32 :: shellVar getenv "MAXPOSTSIZE" := by
      simp [ascii]
    rw [if_neg hne, if_pos hne, hsplit, expandWord_pair (by decide) (by decide) h.maxpostsize hne]
    rfl

/-- A path under `/cert/` is a word. -/
theorem unsplit_cert {v : Bytes} (h : Unsplit v) : Unsplit (ascii "/cert/" ++ v) := by
  have hcert : Unsplit (ascii "/cert/") := by decide
  intro c hc
  exact (List.mem_append.mp hc).elim (hcert c) (h c)

/-- The paths of certificate and key are words, if there are any. -/
theorem UnsplitServer.paths (h : UnsplitServer getenv) {certpath keypath : Bytes}
    (hp : httpsPaths getenv = some (certpath, keypath)) :
    (Unsplit certpath ∧ certpath ≠ []) ∧ Unsplit keypath ∧ keypath ≠ [] := by
  unfold httpsPaths at hp
  dsimp only at hp
  split at hp
  · obtain ⟨rfl, rfl⟩ := Prod.mk.inj (Option.some.inj hp)
    exact ⟨⟨unsplit_cert h.certfile, nofun⟩, unsplit_cert h.keyfile, nofun⟩
  · cases hp

/-- `CERTARG` and `KEYARG` come out as two words each, or as none. -/
theorem expandWord_https (h : UnsplitServer getenv) {readable : Bytes → Bool}
    (hr : HttpsReadable getenv readable) :
    ∃ certarg keyarg, httpsArgs getenv readable = .ok (certarg, keyarg) ∧
      expandWord glob [.value certarg] ++ expandWord glob [.value keyarg] =
        (httpsSettings (httpsPaths getenv)).flatMap Setting.words := by
  unfold httpsArgs
  cases hp : httpsPaths getenv with
  | none => exact ⟨[], [], rfl, rfl⟩
  | some paths =>
      obtain ⟨certpath, keypath⟩ := paths
      obtain ⟨hcert, hkey⟩ := hr (certpath, keypath) hp
      obtain ⟨⟨hc, hcne⟩, hk, hkne⟩ := h.paths hp
      refine ⟨ascii "--cert " ++ certpath, ascii "--key " ++ keypath, by simp [hcert, hkey], ?_⟩
      have hcsplit : ascii "--cert " ++ certpath = ascii "--cert" ++ 32 :: certpath := by
        simp [ascii]
      have hksplit : ascii "--key " ++ keypath = ascii "--key" ++ 32 :: keypath := by
        simp [ascii]
      rw [hcsplit, hksplit, expandWord_pair (by decide) (by decide) hc hcne,
        expandWord_pair (by decide) (by decide) hk hkne]
      rfl

/-- The script gives up at a file that cannot be read. -/
theorem httpsArgs_unreadable {readable : Bytes → Bool} (hr : ¬ HttpsReadable getenv readable) :
    httpsArgs getenv readable = .error (.exit 1) := by
  unfold httpsArgs
  cases hp : httpsPaths getenv with
  | none =>
      refine absurd (fun p hmem => ?_) hr
      rw [hp] at hmem
      cases hmem
  | some paths =>
      obtain ⟨certpath, keypath⟩ := paths
      by_cases hc : readable certpath = true
      · by_cases hk : readable keypath = true
        · refine absurd (fun p hmem => ?_) hr
          rw [hp] at hmem
          obtain rfl := Option.some.inj hmem
          exact ⟨hc, hk⟩
        · simp [hc, hk]
      · simp [hc]

/-- The words that the script starts the server with. -/
theorem webstoreScript_eq (h : UnsplitServer getenv) {readable : Bytes → Bool}
    (hr : HttpsReadable getenv readable) :
    webstoreScript getenv glob readable =
      .ok ((webstoreSettings getenv).flatMap Setting.words) := by
  obtain ⟨certarg, keyarg, hargs, hhttps⟩ := @expandWord_https getenv glob h readable hr
  -- the address of Redis is one word
  have hdest : expandWord glob [.value (shellDefault getenv "REDISIP" "127.0.0.1"),
      .text (ascii ":"), .value (shellDefault getenv "REDISPORT" "6379")] = [redisDest getenv] :=
    expandWord_joined (unsplit_default h.redisip (by decide)) (shellDefault_ne (by decide))
      (by decide) (unsplit_default h.redisport (by decide)) (shellDefault_ne (by decide))
  have hport : expandWord glob [.value (shellDefault getenv "HTTPPORT" "8080")] =
      [shellDefault getenv "HTTPPORT" "8080"] :=
    expandWord_value (unsplit_default h.httpport (by decide)) (shellDefault_ne (by decide))
  rw [webstoreScript, hargs, ok_bind]
  simp only [List.flatMap_cons, List.flatMap_nil, expandWord_text, hdest, hport,
    expandWord_thread, expandWord_size h, List.append_nil, webstoreSettings,
    List.flatMap_append, ← hhttps, pure_ok, List.append_assoc]
  rfl

/-- What the options leave behind. -/
theorem foldl_webstoreSettings (getenv : Bytes → Option Bytes) :
    (webstoreSettings getenv).foldl
      (fun g s => webstoreSwitch g s.opt.number (s.value.getD [])) .start =
        containerOpts getenv := by
  have hcolon : colon ∈ redisDest getenv := by
    simp [redisDest, ascii, colon]
  unfold webstoreSettings threadSettings httpsSettings sizeSettings containerOpts
  by_cases ht : shellVar getenv "MULTITHREAD" = [] <;>
    by_cases hs : shellVar getenv "MAXPOSTSIZE" = [] <;>
    cases hp : httpsPaths getenv <;>
    simp [ht, hs, webstoreSwitch, SrvOpts.start, Opt.entry, hcolon]

/-- What becomes of the settings of the container of the server. -/
theorem webstore_container (h : UnsplitServer getenv) (readable : Bytes → Bool) (prog : Bytes) :
    (webstoreScript getenv glob readable >>= webstoreParseArgs prog) =
      if ¬ HttpsReadable getenv readable then .error (.exit exitFailure)
      else
        match misread webstoreOpts.opts [shellDefault getenv "HTTPPORT" "8080", redisDest getenv,
          shellVar getenv "MAXPOSTSIZE"] with
        | some f => .error f
        | none =>
            if (containerOpts getenv).Accepted then .ok (some (containerOpts getenv))
            else .error (.exit exitFailure) := by
  -- the script comes first, then the options, then their checks
  by_cases hr : HttpsReadable getenv readable
  · rw [if_neg (not_not_intro hr), webstoreScript_eq h hr, ok_bind, webstoreParseArgs,
      scanArgs_spelled (webstoreSettings_spelled getenv), misread_webstoreSettings,
      foldl_webstoreSettings]
    cases misread webstoreOpts.opts [shellDefault getenv "HTTPPORT" "8080", redisDest getenv,
        shellVar getenv "MAXPOSTSIZE"] with
    | some f => rfl
    | none =>
        simp only [ok_bind, webstoreChecks_eq]
        by_cases hg : (containerOpts getenv).Accepted
        · rw [if_pos hg, if_pos hg]
          rfl
        · rw [if_neg hg, if_neg hg]
          rfl
  · rw [if_pos hr, webstoreScript, httpsArgs_unreadable hr]
    rfl

/-- A server as it is started in the README. -/
def readmeEnv : Bytes → Option Bytes :=
  envOf [("REDISIP", "172.17.0.1"), ("REDISPORT", "7777"), ("MAXPOSTSIZE", "1000000")]

theorem webstore_container_readme :
    (webstoreScript readmeEnv (fun w => [w]) (fun _ => false) >>=
      webstoreParseArgs (ascii "/app/webstore.exe")) = .ok (some (containerOpts readmeEnv)) := by
  have hwords : UnsplitServer readmeEnv := by
    constructor
    all_goals decide
  have hmisread : misread webstoreOpts.opts [shellDefault readmeEnv "HTTPPORT" "8080",
      redisDest readmeEnv, shellVar readmeEnv "MAXPOSTSIZE"] = none := by
    decide
  refine (webstore_container hwords _ _).trans ?_
  rw [if_neg (by decide), hmisread]
  exact if_pos (by decide)

end Webstore
