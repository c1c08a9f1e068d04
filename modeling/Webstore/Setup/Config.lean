/-
  Webstore.Setup.Config

  A server that has been started tells its configuration.  What `parse_args`
  and `webstore_start` let through is in range, whatever the command line and
  the environment; the page of `/config/all` then fits its buffer; and what
  `ws_cfg` prints is that page, from which every setting can be read.
-/
import Mathlib.Data.Nat.Digits.Lemmas
import Webstore.Daemon.Origin
import Webstore.Session.Integrity
import Webstore.Setup

namespace Webstore

open Webstore.Libc Webstore.Sched

/-! ## The command line -/

/-- The loop of a `parse_args` is over once all words are read. -/
theorem scanArgs_eq {σ : Type} (T : OptTable) (switch : σ → Int → Bytes → σ) (g : σ) (prog : Bytes)
    (words : List Bytes) :
    scanArgs T switch g prog words =
      if words.any isHelp then .error (.exit 0)
      else readWords T.opts words >>= fun p =>
        if p.usage then .error (.exit 0)
        else .ok (some (p.items.foldl (fun g item => switch g item.1 (item.2.getD [])) g)) := by
  rw [scanArgs, getoptsLoop_start]
  by_cases hhelp : words.any isHelp = true
  · rw [if_pos hhelp, if_pos hhelp]
    rfl
  · rw [if_neg hhelp, if_neg hhelp]
    cases readWords T.opts words with
    | error e => rfl
    | ok p => obtain ⟨items, usage⟩ := p; cases usage <;> rfl

/-- What the body of the loop keeps, the loop keeps. -/
theorem scanArgs_keeps {σ : Type} {T : OptTable} {switch : σ → Int → Bytes → σ} {g g' : σ}
    {prog : Bytes} {words : List Bytes} {Q : σ → Prop} (h₀ : Q g)
    (hswitch : ∀ g c args, Q g → Q (switch g c args))
    (h : scanArgs T switch g prog words = .ok (some g')) : Q g' := by
  rw [scanArgs_eq] at h
  split at h
  · cases h
  obtain ⟨p, -, h⟩ := bind_eq_ok h
  split at h
  · cases h
  · obtain rfl := Option.some.inj (Except.ok.inj h)
    exact List.foldlRecOn p.items _ h₀ fun g hg item _ => hswitch g item.1 _ hg

/-! ## The start of the server -/

theorem atol_range (s : Bytes) : -2 ^ 63 ≤ atol s ∧ atol s < 2 ^ 63 := by
  unfold atol
  omega

/-- What the nodes may rely on. -/
structure Wsrt.InRange (rt : Wsrt) : Prop where
  upload : 6 ≤ rt.maxPostDataSize
  limit : rt.LimitOk
  expiration : rt.expiration < 2 ^ 63

/-- An option leaves the upload limit within a `long`. -/
theorem webstoreSwitch_limit (g : SrvOpts) (c : Int) (args : Bytes)
    (h : g.maxPostDataSize < 2 ^ 63) : (webstoreSwitch g c args).maxPostDataSize < 2 ^ 63 := by
  unfold webstoreSwitch
  split
  case h_6 => split <;> exact h
  case h_9 => exact (atol_range args).2
  all_goals exact h

/-- A check that was passed. -/
theorem guard_ok {α : Type} {c : Prop} [Decidable c] {e : Fault} {k : Except Fault α} {a : α}
    (h : (if c then throw e else k) = .ok a) : ¬ c ∧ k = .ok a := by
  by_cases hc : c
  · rw [if_pos hc] at h
    cases h
  · rw [if_neg hc] at h
    exact ⟨hc, h⟩

/-- What the checks let through. -/
structure SrvOpts.Accepted (g : SrvOpts) : Prop where
  redis : g.rsock.isSome = true ∨ g.rip.isSome = true
  rport : g.rip.isSome = true → g.rport ≠ 0
  httpPort : g.httpPort ≠ 0
  https : g.certfile.isSome = g.keyfile.isSome
  upload : 6 ≤ g.maxPostDataSize

/-- The checks of `parse_args` as one condition. -/
theorem webstoreChecks_ok {g : SrvOpts} : webstoreChecks g = .ok () ↔ g.Accepted := by
  constructor
  · intro h
    -- one check after the other lets the options through
    obtain ⟨hredis, h⟩ := guard_ok h
    obtain ⟨hrport, h⟩ := guard_ok h
    obtain ⟨hport, h⟩ := guard_ok h
    obtain ⟨hcert, h⟩ := guard_ok h
    obtain ⟨hkey, h⟩ := guard_ok h
    obtain ⟨hsize, -⟩ := guard_ok h
    refine ⟨?_, ?_, hport, ?_, by omega⟩
    · cases hs : g.rsock <;> cases hi : g.rip <;> simp [hs, hi] at hredis ⊢
    · intro hi
      simpa [hi] using hrport
    · cases hc : g.certfile <;> cases hk : g.keyfile <;> simp [hc, hk] at hcert hkey ⊢
  · rintro ⟨hredis, hrport, hport, hhttps, hsize⟩
    have hsize' : ¬ g.maxPostDataSize < 6 := by omega
    have hredis' : (g.rsock.isNone && g.rip.isNone) = false := by
      cases hs : g.rsock <;> cases hi : g.rip <;> simp [hs, hi] at hredis ⊢
    have hrport' : (g.rip.isSome && decide (g.rport = 0)) = false := by
      cases hi : g.rip.isSome <;> simp [hi] at hrport ⊢
      exact hrport
    have hcert : (g.certfile.isSome && g.keyfile.isNone) = false := by
      rw [hhttps]
      cases g.keyfile <;> rfl
    have hkey : (g.certfile.isNone && g.keyfile.isSome) = false := by
      rw [← hhttps]
      cases g.certfile <;> rfl
    simp only [webstoreChecks, hredis', hrport', hport, hcert, hkey, hsize', if_false,
      Bool.false_eq_true]
    rfl

/-- A check that goes one way or the other. -/
theorem guard_cases {α : Type} {c : Prop} [Decidable c] {e : Fault} {k : Except Fault α} {a : α}
    (h : k = .ok a ∨ k = .error e) :
    (if c then throw e else k) = .ok a ∨ (if c then throw e else k) = .error e := by
  by_cases hc : c
  · rw [if_pos hc]
    exact .inr rfl
  · rw [if_neg hc]
    exact h

instance (g : SrvOpts) : Decidable g.Accepted := decidable_of_iff _ webstoreChecks_ok

theorem webstoreChecks_eq (g : SrvOpts) :
    webstoreChecks g = if g.Accepted then .ok () else .error (.exit exitFailure) := by
  have hcases : webstoreChecks g = .ok () ∨ webstoreChecks g = .error (.exit exitFailure) := by
    unfold webstoreChecks
    exact guard_cases (guard_cases (guard_cases (guard_cases (guard_cases (guard_cases
      (.inl rfl))))))
  by_cases hg : g.Accepted
  · rw [if_pos hg, webstoreChecks_ok.mpr hg]
  · rw [if_neg hg]
    exact hcases.resolve_left fun h => hg (webstoreChecks_ok.mp h)

theorem webstoreServe_ok {host : Host} {so : SrvOpts} {rdest : Bytes} {rport : UInt16}
    {s : Serving} (h : webstoreServe host so rdest rport = .ok s) :
    s.ip = so.httpIp ∧ s.port = so.httpPort ∧ s.redis = (rdest, rport) ∧
      s.rt = runtimeData host.getenv so := by
  obtain ⟨-, h⟩ := guard_ok h
  obtain ⟨https, -, h⟩ := bind_eq_ok h
  obtain ⟨-, h⟩ := guard_ok h
  cases h
  exact ⟨rfl, rfl, rfl, rfl⟩

/-- Where a server comes from. -/
structure Serving.From (s : Serving) (host : Host) (g : SrvOpts) : Prop where
  ip : s.ip = g.httpIp
  port : s.port = g.httpPort
  rt : s.rt = runtimeData host.getenv g
  redis : g.rsock = some s.redis.1 ∧ s.redis.2 = 0 ∨
    g.rsock = none ∧ g.rip = some s.redis.1 ∧ s.redis.2 = g.rport

/-- A server that starts has accepted its options and works with them. -/
theorem webstoreMain_ok {host : Host} {prog : Bytes} {words : List Bytes} {s : Serving}
    (h : webstoreMain host prog words = .ok (some s)) :
    ∃ g, scanArgs webstoreOpts webstoreSwitch .start prog words = .ok (some g) ∧ g.Accepted ∧
      s.From host g := by
  obtain ⟨parsed, hparse, h⟩ := bind_eq_ok h
  obtain ⟨scanned, hscan, hparse⟩ := bind_eq_ok hparse
  cases scanned with
  | none =>
      cases hparse
      cases h
  | some g =>
      obtain ⟨⟨⟩, hchecks, hparse⟩ := bind_eq_ok hparse
      cases hparse
      refine ⟨g, hscan, webstoreChecks_ok.mp hchecks, ?_⟩
      obtain ⟨⟨⟩, -, h⟩ := bind_eq_ok h
      -- a socket is tried first, then the address
      cases hs : g.rsock with
      | some rsock =>
          simp only [hs] at h
          obtain ⟨s', hserve, h⟩ := bind_eq_ok h
          cases h
          obtain ⟨hip, hport, hredis, hrt⟩ := webstoreServe_ok hserve
          exact ⟨hip, hport, hrt, .inl (by simp [hs, hredis])⟩
      | none =>
          simp only [hs] at h
          cases hi : g.rip with
          | none =>
              simp only [hi] at h
              cases h
          | some rip =>
              simp only [hi] at h
              split at h
              · obtain ⟨s', hserve, h⟩ := bind_eq_ok h
                cases h
                obtain ⟨hip, hport, hredis, hrt⟩ := webstoreServe_ok hserve
                exact ⟨hip, hport, hrt, .inr (by simp [hs, hi, hredis])⟩
              · cases h

/-- The data of a server are in range, whatever it was told. -/
theorem webstoreMain_inRange {host : Host} {prog : Bytes} {words : List Bytes} {s : Serving}
    (h : webstoreMain host prog words = .ok (some s)) : s.rt.InRange := by
  obtain ⟨g, hscan, hg, hs⟩ := webstoreMain_ok h
  have hlimit : g.maxPostDataSize < 2 ^ 63 :=
    scanArgs_keeps (Q := fun g : SrvOpts => g.maxPostDataSize < 2 ^ 63) (by decide)
      webstoreSwitch_limit hscan
  have hupload := hg.upload
  rw [hs.rt]
  refine ⟨hupload, ⟨?_, hlimit⟩, ?_⟩
  · exact Int.le_trans (by decide) hupload
  · simp only [runtimeData]
    cases host.getenv (ascii "EXPIRATION") with
    | none => decide
    | some v =>
        have := atol_range v
        simp only [Option.map_some, Option.getD_some]
        omega

/-! ## The page -/

/-- `\n`. -/
def newline : UInt8 := 10

/-- One setting, without the end of its line. -/
def cfgLine (name value unit : Bytes) : Bytes := name ++ ascii ": " ++ value ++ unit

/-- The lines of `/config/all`. -/
def cfgLines (rt : Wsrt) : List Bytes :=
  [cfgLine (ascii "MAXUPLOADSIZE") (ll2string rt.maxPostDataSize) (ascii " bytes"),
    cfgLine (ascii "EXPIRATION") (decimal rt.expiration) (ascii " seconds"),
    cfgLine (ascii "IMMUTABLE") (flag rt.immutable) [],
    cfgLine (ascii "BAR") (flag rt.bar) []]

/-- What `/config/all` says. -/
def cfgText (rt : Wsrt) : Bytes := (cfgLines rt).flatMap fun line => line ++ [newline]

theorem length_decimal {n : Nat} (h : n < 2 ^ 63) : (decimal n).length ≤ 19 := by
  unfold decimal
  split
  · decide
  · rw [List.length_map, List.length_reverse, Nat.digits_length_le_iff (by decide)]
    omega

theorem Wsrt.InRange.ll2string {rt : Wsrt} (h : rt.InRange) :
    ll2string rt.maxPostDataSize = decimal rt.maxPostDataSize.toNat := by
  have h₀ := h.limit.1
  rw [← Int.toNat_of_nonneg h₀, ll2string_natCast]
  rfl

theorem length_flag (b : Bool) : (flag b).length = 1 := by
  cases b <;> rfl

/-- What is printed behind a page that leaves enough room. -/
theorem appendf_eq {page text : Bytes} (h : page.length + text.length < cfgPageSize) :
    appendf (page, page.length) text = (page ++ text, (page ++ text).length) := by
  have hall : text.take (cfgPageSize - page.length - 1) = text :=
    List.take_of_length_le (by omega)
  rw [appendf, snprintf, hall, List.length_append]

/-- The whole page fits the buffer. -/
theorem nodecfg_all {rt : Wsrt} (h : rt.InRange) {ri : Srci} (hm : ri.methodType = .get)
    (urllen : Int) :
    nodecfg (ascii "all") urllen ri rt = .op (S := Rai) .shuttingDown fun stop =>
      .done (if stop then shutdownmsg ri else (cfgText rt, ri.setReturnCode httpOk)) := by
  have hmax : (ll2string rt.maxPostDataSize).length ≤ 19 := by
    rw [h.ll2string]
    exact length_decimal (by have := h.limit.2; omega)
  have hexp := length_decimal h.expiration
  have hall : (ascii "all" == ascii "all") = true := rfl
  -- no line is cut off, so the page is all of them
  have hpage : (appendf (appendf (appendf
      (appendf ([], 0) (ascii "MAXUPLOADSIZE: " ++ ll2string rt.maxPostDataSize ++
        ascii " bytes\n"))
      (ascii "EXPIRATION: " ++ decimal rt.expiration ++ ascii " seconds\n"))
      (ascii "IMMUTABLE: " ++ flag rt.immutable ++ ascii "\n"))
      (ascii "BAR: " ++ flag rt.bar ++ ascii "\n")).1 = cfgText rt := by
    have hstart : (([] : Bytes), 0) = ([], ([] : Bytes).length) := rfl
    rw [hstart, appendf_eq, appendf_eq, appendf_eq, appendf_eq]
    · simp [cfgText, cfgLines, cfgLine, newline, ascii]
    all_goals
      simp only [List.nil_append, List.length_append, length_flag, List.length_nil, cfgPageSize]
      simp [ascii]
      omega
  simp only [nodecfg, shuttingDown_bind, hm, hall, Bool.true_or, if_true, Bool.not_true,
    Bool.false_eq_true, if_false, ne_eq, not_true_eq_false, hpage]
  refine congrArg (Prog.op (S := Rai) .shuttingDown) (funext fun stop => ?_)
  cases stop <;> rfl

/-! ## Reading it -/

/-- The number that a page gives behind a name, in the first line that begins
    with it. -/
def cfgValue (name page : Bytes) : Option Int :=
  ((page.splitOn newline).find? fun line => (name ++ ascii ": ").isPrefixOf line).map fun line =>
    atol (line.drop (name.length + 2))

/-- The lines of a text are its lines. -/
theorem splitOn_lines {c : UInt8} {lines : List Bytes} (h : ∀ line ∈ lines, c ∉ line) :
    (lines.flatMap fun line => line ++ [c]).splitOn c = lines ++ [[]] := by
  induction lines with
  | nil => rfl
  | cons line lines ih =>
      obtain ⟨hline, hlines⟩ := List.forall_mem_cons.mp h
      rw [List.flatMap_cons, List.append_assoc, List.singleton_append,
        List.splitOn_append_cons_self_of_not_mem hline, ih hlines, List.cons_append]

theorem readDigits_append {s t : Bytes} (hs : ∀ c ∈ s, isdigit c = true)
    (ht : ∀ c ∈ t.head?, isdigit c = false) (acc : Nat) :
    readDigits acc (s ++ t) = readDigits acc s := by
  induction s generalizing acc with
  | nil =>
      cases t with
      | nil => rfl
      | cons c t => simp [readDigits, ht c rfl]
  | cons c s ih =>
      obtain ⟨hc, hs⟩ := List.forall_mem_cons.mp hs
      simp only [List.cons_append, readDigits, hc, if_true, ih hs]

theorem readInt_of_digit {c : UInt8} (hc : isdigit c = true) (cs : Bytes) :
    readInt (c :: cs) = readDigits 0 (c :: cs) := by
  unfold readInt
  rw [List.dropWhile_cons_of_neg (by simp [isspace_of_isdigit hc])]
  split
  · rename_i heq
    obtain ⟨rfl, -⟩ := List.cons.inj heq
    exact absurd hc (by decide)
  · rename_i heq
    obtain ⟨rfl, -⟩ := List.cons.inj heq
    exact absurd hc (by decide)
  · rfl

/-- A number is read up to its unit. -/
theorem atol_decimal_append {n : Nat} (hn : n < 2 ^ 63) {t : Bytes}
    (ht : ∀ c ∈ t.head?, isdigit c = false) : atol (decimal n ++ t) = n := by
  have hread : readInt (decimal n ++ t) = n := by
    have hdigits := decimal_digits n
    cases hd : decimal n with
    | nil =>
        -- a number has a digit
        have := congrArg List.length hd
        unfold decimal at this
        split at this
        · cases this
        · simp [Nat.digits_eq_nil_iff_eq_zero, *] at this
    | cons c cs =>
        rw [hd] at hdigits
        rw [List.cons_append, readInt_of_digit (hdigits c List.mem_cons_self), ← List.cons_append,
          readDigits_append hdigits ht, ← hd, readDigits_decimal]
  rw [atol, hread]
  omega

/-- What a page says of the settings of a server. -/
structure Reported (rt : Wsrt) (page : Bytes) : Prop where
  upload : cfgValue (ascii "MAXUPLOADSIZE") page = some rt.maxPostDataSize
  expiration : cfgValue (ascii "EXPIRATION") page = some rt.expiration
  immutable : cfgValue (ascii "IMMUTABLE") page = some (if rt.immutable then 1 else 0)
  bar : cfgValue (ascii "BAR") page = some (if rt.bar then 1 else 0)

theorem newline_notMem_decimal (n : Nat) : newline ∉ decimal n := fun h =>
  absurd (decimal_digits n _ h) (by decide)

theorem newline_notMem_flag (b : Bool) : newline ∉ flag b := by
  cases b <;> decide

theorem atol_flag (b : Bool) : atol (flag b) = if b then 1 else 0 := by
  cases b <;> decide

/-- Every setting can be read from the page. -/
theorem reported_cfgText {rt : Wsrt} (h : rt.InRange) : Reported rt (cfgText rt) := by
  obtain ⟨h₀, hlt⟩ := h.limit
  -- no line has a newline in it
  have hlines : (cfgText rt).splitOn newline = cfgLines rt ++ [[]] := by
    refine splitOn_lines fun line hline => ?_
    simp only [cfgLines, h.ll2string, List.mem_cons, List.not_mem_nil, or_false] at hline
    rcases hline with rfl | rfl | rfl | rfl <;> unfold cfgLine <;>
      simp only [List.mem_append, newline_notMem_decimal, newline_notMem_flag] <;> decide
  have hmax : atol (decimal rt.maxPostDataSize.toNat ++ ascii " bytes") = rt.maxPostDataSize := by
    have hblank : ∀ c ∈ (ascii " bytes").head?, isdigit c = false := by
      intro c hc
      cases hc
      rfl
    rw [atol_decimal_append (by omega) hblank]
    omega
  have hexp : atol (decimal rt.expiration ++ ascii " seconds") = rt.expiration := by
    refine atol_decimal_append h.expiration fun c hc => ?_
    cases hc
    rfl
  refine ⟨?_, ?_, ?_, ?_⟩
  all_goals
    rw [cfgValue, hlines]
    simp [cfgLines, cfgLine, h.ll2string, ascii]
  · exact hmax
  · exact hexp
  · exact atol_flag _
  · exact atol_flag _

/-! ## ws_cfg -/

/-- The path that `ws_cfg` asks for. -/
def cfgPath : Bytes := configRoot ++ ascii "all"

/-- A GET of the configuration is refused, or answered with the page. -/
theorem exchange_config {rt : Wsrt} (h : rt.InRange) {x : Exchange}
    (hurl : x.hdr.url = some cfgPath) (hmethod : x.hdr.method = some (ascii "GET")) :
    uhdRequest (webstoreStart rt) x.hdr x.chunks = .done .no ∨
    uhdRequest (webstoreStart rt) x.hdr x.chunks = .op (S := Rai) .shuttingDown fun stop =>
      .done (queued (if stop then stopping else ⟨httpOk, cfgText rt⟩)) := by
  rcases exchange_arrives h.limit x with hno | ⟨ri, harr, hnul, -, -, -, hans⟩
  · exact .inl hno
  · obtain ⟨url, hurl', hri⟩ := harr.url
    obtain ⟨method, hmethod', hget⟩ := harr.method
    obtain rfl : cfgPath = url := Option.some.inj (hurl.symm.trans hurl')
    obtain rfl : ascii "GET" = method := Option.some.inj (hmethod.symm.trans hmethod')
    have hm : ri.methodType = .get := Option.some.inj (hget.symm.trans (by decide))
    have hpath : ri.url = configRoot ++ ascii "all" := hri.trans (by decide)
    obtain ⟨n, hn, hnroot, hcb⟩ := exists_config_node rt
    have hfind := find_webstoreStart rt hnul hn
      (by rw [hnroot, hpath]; exact List.prefix_append _ _)
    have hdrop : ri.url.drop n.root.length = ascii "all" := by
      rw [hnroot, hpath, List.drop_left']
      rfl
    rw [hans, uhdAnswer_found hfind (callback_of_mem hn).1 hcb, hdrop, nodecfg_all h hm,
      Prog.op_bind]
    refine .inr (congrArg (Prog.op (S := Rai) .shuttingDown) (funext fun stop => ?_))
    cases stop <;> rfl

theorem cfgText_ne_nil (rt : Wsrt) : cfgText rt ≠ [] := by
  simp [cfgText, cfgLines]

theorem nulFree_cfgText {rt : Wsrt} (h : rt.InRange) : NulFree (cfgText rt) := by
  have hflag : ∀ b, (0 : UInt8) ∉ flag b := fun b => by cases b <;> decide
  have hdec : ∀ n, (0 : UInt8) ∉ decimal n := fun n hn => nulFree_decimal n 0 hn rfl
  rintro c hc rfl
  simp only [cfgText, cfgLines, cfgLine, h.ll2string, List.flatMap_cons, List.flatMap_nil,
    List.mem_append, hdec, hflag] at hc
  revert hc
  decide

theorem cString_terminated (b : Bytes) : cString (b ++ [0]) = cString b := by
  unfold cString
  induction b with
  | nil => rfl
  | cons c b ih =>
      rw [List.cons_append, List.takeWhile_cons, List.takeWhile_cons, ih]

/-- `ws_cfg` prints the page of a 200 that has one, and of nothing else. -/
theorem wsCfgMain_response {g : CfgArgs} {perform : Bytes → CurlEnd} {httpCode : Int}
    {pieces : List Bytes}
    (hend : perform (cfgUrl g.host g.port g.secure) = .response httpCode pieces)
    (hne : pieces.flatten ≠ []) :
    wsCfgMain g perform =
      .ok (if httpCode = 200 then (0, some (cString pieces.flatten)) else (1, none)) := by
  -- a page that is not empty came in some pieces
  have hpieces : pieces ≠ [] := by
    rintro rfl
    exact hne rfl
  rw [wsCfgMain, hend, wsCurl, collect_eq hpieces]
  by_cases hcode : httpCode = 200
  · simp [hcode, cString_terminated]
  · simp [hcode]

/-- A GET of the configuration is answered with the page, or with 503 where the
    server is stopping. -/
theorem config_answer {rt : Wsrt} (hrange : rt.InRange) {P : Policy} {a : Server}
    {h : List DaemonEvent} {s : DaemonSys} (run : (daemonMachine P rt).Run (Machine.init a) h s)
    {i : Nat} {x : Exchange} {r : Response}
    (ht : s.threads[i]? = some ⟨.exchange x, .done (.result (.queued r))⟩)
    (hurl : x.hdr.url = some cfgPath) (hmethod : x.hdr.method = some (ascii "GET")) :
    r = stopping ∨ r = ⟨httpOk, cfgText rt⟩ := by
  obtain ⟨res, hres, hl⟩ := (run.leads ht).of_map
  obtain rfl := Departure.result.inj hres
  -- it is refused before it gets to its node, or answered there
  rcases exchange_config hrange hurl hmethod with hno | hform
  · rw [hno] at hl
    obtain ⟨-, hl⟩ := hl.of_done
    cases hl
  · rw [hform] at hl
    obtain ⟨stop, hl⟩ := hl.of_quiet rfl
    obtain ⟨-, hl⟩ := hl.of_done
    have hstop : queued stopping = .queued stopping := by decide
    have hpage : queued ⟨httpOk, cfgText rt⟩ = .queued ⟨httpOk, cfgText rt⟩ := by
      simp [queued, httpOk, cString_of_nulFree (nulFree_cfgText hrange)]
    cases stop with
    | true => exact .inl (MhdResult.queued.inj (hl.symm.trans hstop))
    | false => exact .inr (MhdResult.queued.inj (hl.symm.trans hpage))

/-- What `ws_cfg` prints is what the server was told, whatever it has been doing
    since.  It prints nothing only if it meets a server that is stopping. -/
theorem ws_cfg_reports {host : Host} {prog : Bytes} {words : List Bytes} {srv : Serving}
    (hserve : webstoreMain host prog words = .ok (some srv)) {P : Policy} {a : Server}
    {h : List DaemonEvent} {s : DaemonSys}
    (run : (daemonMachine P srv.rt).Run (Machine.init a) h s) {prog' : Bytes}
    {words' : List Bytes} {g : CfgArgs} (hargs : wsCfgParseArgs prog' words' = .ok (some g))
    {i : Nat} {x : Exchange} {d : MhdResult}
    (ht : s.threads[i]? = some ⟨.exchange x, .done (.result d)⟩)
    (hx : x.Carries (urlOrigin g.host g.port g.secure) (cfgUrl g.host g.port g.secure)
      (ascii "GET") [])
    (hfits : (urlOrigin g.host g.port g.secure ++ cfgPath).length < urlSize)
    {perform : Bytes → CurlEnd} {httpCode : Int} {pieces : List Bytes}
    (hend : perform (cfgUrl g.host g.port g.secure) = .response httpCode pieces)
    (hnet : Relays d (.response httpCode pieces)) :
    httpCode = 200 ∧ wsCfg prog' words' perform = .ok (some (0, some (cfgText srv.rt))) ∧
        Reported srv.rt (cfgText srv.rt) ∨
      httpCode = 503 ∧ wsCfg prog' words' perform = .ok (some (1, none)) := by
  have hrange := webstoreMain_inRange hserve
  obtain ⟨page, rfl, hflat⟩ := hnet
  -- the URL was not cut off
  have hpath : ascii "/config/all" = cfgPath := by decide
  have hcut : cfgUrl g.host g.port g.secure = urlOrigin g.host g.port g.secure ++ cfgPath := by
    rw [cfgUrl, hpath, snprintf, List.take_of_length_le (by omega)]
  have hurl := (hcut ▸ hx).path
  have hcfg : wsCfg prog' words' perform = (wsCfgMain g perform).map some := by
    rw [wsCfg, hargs, ok_bind]
    rfl
  rcases config_answer hrange run ht hurl hx.method with hstop | hok
  · obtain ⟨rfl, rfl⟩ := Response.mk.inj hstop
    refine .inr ⟨rfl, ?_⟩
    rw [hcfg, wsCfgMain_response hend (by rw [hflat]; decide)]
    rfl
  · obtain ⟨rfl, rfl⟩ := Response.mk.inj hok
    refine .inl ⟨rfl, ?_, reported_cfgText hrange⟩
    rw [hcfg, wsCfgMain_response hend (by rw [hflat]; exact cfgText_ne_nil srv.rt), hflat,
      cString_of_nulFree (nulFree_cfgText hrange)]
    rfl

/-! A server with an expiration is started and asked. -/

/-- A machine where everything works, and messages expire after a minute. -/
def minuteHost : Host where
  getenv name := if name = ascii "EXPIRATION" then some (ascii "60") else none
  files _ := .missing
  mutexInit := 0
  redisConnect _ _ := some false
  redisConnectUnix _ := none
  opensLog _ := true
  binds _ _ := true

def minuteWords : List Bytes :=
  [ascii "-P", ascii "8080", ascii "--rtcp", ascii "127.0.0.1:6379"]

def minuteServing : Serving :=
  ⟨none, 8080, (ascii "127.0.0.1", 6379), none, { defaultRt with
    multithreaded := false
    expiration := 60 }⟩

theorem minuteServing_serves :
    webstoreMain minuteHost (ascii "webstore") minuteWords = .ok (some minuteServing) := by
  rfl

def askCfg : Exchange :=
  ⟨⟨some cfgPath, some (ascii "GET"), some (ascii "HTTP/1.1"), none⟩, [], pieces_nil⟩

theorem askCfg_answers :
    daemonAnswers .anything minuteServing.rt (Server.start (.empty 0))
      [.spawn (.exchange askCfg), .act 0 .answered] =
      some [(.exchange askCfg, some (.result (.queued ⟨httpOk, cfgText minuteServing.rt⟩)))] := by
  decide +kernel

def fetchCfg (_url : Bytes) : CurlEnd := .response 200 [cfgText minuteServing.rt]

/-- `ws_cfg` is called with the address of the server. -/
def cfgWords : List Bytes := [ascii "-H", ascii "localhost", ascii "-P", ascii "8080"]

theorem ws_cfg_reports_minute :
    wsCfg (ascii "ws_cfg") cfgWords fetchCfg = .ok (some (0, some (cfgText minuteServing.rt))) ∧
      Reported minuteServing.rt (cfgText minuteServing.rt) := by
  obtain ⟨h, s, run, -, hthreads⟩ := run_of_daemonAnswers askCfg_answers
  have hargs : wsCfgParseArgs (ascii "ws_cfg") cfgWords =
      .ok (some ⟨ascii "localhost", 8080, false⟩) := rfl
  have hend : fetchCfg (cfgUrl (ascii "localhost") 8080 false) =
      .response 200 [cfgText minuteServing.rt] := rfl
  have hnet : Relays (.queued ⟨httpOk, cfgText minuteServing.rt⟩)
      (.response 200 [cfgText minuteServing.rt]) := ⟨_, rfl, by decide +kernel⟩
  rcases ws_cfg_reports minuteServing_serves run hargs (hthreads 0 _ _ rfl)
    ⟨⟨cfgPath, by decide +kernel, rfl⟩, rfl, rfl⟩ (by decide +kernel) hend hnet with ⟨-, h⟩ | ⟨h, -⟩
  · exact h
  · cases h

end Webstore
