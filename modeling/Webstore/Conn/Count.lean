/-
  Webstore.Conn.Count

  The limiter counts exactly.  Read off a history, the connections counted
  since a counter was created are the threads whose SET or INCR has gone to its
  key since then.  The text of a counter is always the decimal spelling of
  their number, which lies between 1 and the limit; a check denies exactly
  when it has read the limit; and what is counted is what was accepted.
-/
import Webstore.Conn.Rule

namespace Webstore

open Webstore.Libc Webstore.Sched

namespace Count

/-- One event's part in the connections counted on `k`: a SET creates the
    counter, and so does an INCR that finds none. -/
def tally (k : Bytes) (l : List Nat) : ConnEvent → List Nat
  | .op i _ (.redisCommand (.set k' _ _ _)) _ _ _ => if k' = k then [i] else l
  | .op i _ (.redisCommand (.incr k')) _ pre _ =>
      if k' = k then if (pre.db.get k).isNone then [i] else l ++ [i] else l
  | _ => l

/-- The connections counted on `k` since it was last created. -/
def acceptedSince (k : Bytes) (h : List ConnEvent) : List Nat := h.foldl (tally k) []

/-- The key an event counts on. -/
def savedKey : ConnEvent → Option Bytes
  | .op _ _ (.redisCommand (.set k _ _ _)) _ _ _ => some k
  | .op _ _ (.redisCommand (.incr k)) _ _ _ => some k
  | _ => none

/-- What a GET read. -/
def readReply : ConnEvent → Option (Bytes × Option Reply)
  | .op _ _ (.redisCommand (.get k)) v _ _ => some (k, v)
  | _ => none

/-- What `f` finds in the events of thread `i`. -/
def own {β : Type} (f : ConnEvent → Option β) (i : Nat) (h : List ConnEvent) : List β :=
  (h.filter fun ev => ev.tid == some i).filterMap f

/-- The keys thread `i` has counted on. -/
def saves (i : Nat) (h : List ConnEvent) : List Bytes := own savedKey i h

/-- The keys thread `i` has read, and what it read. -/
def reads (i : Nat) (h : List ConnEvent) : List (Bytes × Option Reply) := own readReply i h

@[simp] theorem acceptedSince_concat (k : Bytes) (h : List ConnEvent) (ev : ConnEvent) :
    acceptedSince k (h ++ [ev]) = tally k (acceptedSince k h) ev := by
  simp [acceptedSince]

section
variable {β : Type} (f : ConnEvent → Option β)

theorem own_concat_self {i : Nat} {ev : ConnEvent} (hev : ev.tid = some i) (h : List ConnEvent) :
    own f i (h ++ [ev]) = own f i h ++ (f ev).toList := by
  simp only [own, List.filter_append, List.filterMap_append]
  congr 1
  cases hf : f ev <;> simp [hev, hf]

theorem own_concat_ne {i : Nat} {ev : ConnEvent} (hev : ev.tid ≠ some i) (h : List ConnEvent) :
    own f i (h ++ [ev]) = own f i h := by
  simp [own, hev]

theorem own_fresh {w : ConnWorld} {i : Nat} (hf : w.Fresh i) : own f i w.hist = [] := by
  have hnone : (w.hist.filter fun ev => ev.tid == some i) = [] := by
    refine List.filter_eq_nil_iff.mpr fun ev hm => ?_
    simpa using hf ev hm
  simp [own, hnone]

end

/-- An event that counts on no key or on another one. -/
theorem tally_of_savedKey_ne {k : Bytes} {ev : ConnEvent} (h : savedKey ev ≠ some k)
    (l : List Nat) : tally k l ev = l := by
  rcases ev with ⟨i, ip, o, v, pre, post⟩ | ⟨e, pre, post⟩
  · rcases o with (k' | k' | ⟨k', v', ex, nx⟩ | k') | - | - | f
    · rfl
    · rfl
    · have hk : k' ≠ k := fun hk => h (congrArg some hk)
      simp [tally, hk]
    · have hk : k' ≠ k := fun hk => h (congrArg some hk)
      simp [tally, hk]
    · rfl
    · rfl
    · rfl
  · rfl

/-- What the limiter promises. -/
structure CountsExactly (rt : Wsrt) (h : List ConnEvent) (s : Sys Rai Server Bytes Int) :
    Prop where
  value : ∀ ip e, s.shared.db.get (ipKey ip) = some e →
    e.val = decimal (acceptedSince (ipKey ip) h).length ∧
    1 ≤ (acceptedSince (ipKey ip) h).length ∧
    ((acceptedSince (ipKey ip) h).length : Int) ≤ rt.reqcount
  distinct : ∀ ip, (acceptedSince (ipKey ip) h).Nodup
  counted : ∀ ip, ∀ i ∈ acceptedSince (ipKey ip) h,
    ∀ (t : Thread Rai Bytes Int) (a : Int), s.threads[i]? = some t → t.code = .done a →
      a = srIpAccept ∧ ipKey t.req = ipKey ip ∧ cString t.req ≠ localhost
  verdict : ∀ (i : Nat) (t : Thread Rai Bytes Int) (a : Int),
    s.threads[i]? = some t → t.code = .done a → cString t.req ≠ localhost →
    (a = srIpAccept ∧ saves i h = [ipKey t.req]) ∨ (a = srIpDeny ∧ saves i h = [])
  denied : ∀ (i : Nat) (t : Thread Rai Bytes Int) (a : Int),
    s.threads[i]? = some t → t.code = .done a → cString t.req ≠ localhost →
    ∃ v, reads i h = [(ipKey t.req, v)] ∧
      (a = srIpDeny ↔ v = some (.string (decimal rt.reqcount.toNat)))
  harmless : ∀ (i : Nat) (t : Thread Rai Bytes Int),
    s.threads[i]? = some t → t.code = .done srIpDeny →
    ∀ ev ∈ h, ev.tid = some i → ev.post = ev.pre
  exempt : ∀ (i : Nat) (t : Thread Rai Bytes Int) (a : Int),
    s.threads[i]? = some t → t.code = .done a → cString t.req = localhost →
    a = srIpAccept ∧ ∀ ev ∈ h, ev.tid ≠ some i

/-! ## The outline -/

/-- The connections counted on an address. -/
def count (w : ConnWorld) (ip : Bytes) : Nat := (acceptedSince (ipKey ip) w.hist).length

/-- Counters and tallies agree. -/
structure Counting (rt : Wsrt) (w : ConnWorld) : Prop where
  connected : w.shared.broken = false
  value : ∀ ip e, w.shared.db.get (ipKey ip) = some e →
    e.val = decimal (count w ip) ∧ 1 ≤ count w ip ∧ (count w ip : Int) ≤ rt.reqcount
  distinct : ∀ ip, (acceptedSince (ipKey ip) w.hist).Nodup
  saved : ∀ ip, ∀ i ∈ acceptedSince (ipKey ip) w.hist, ipKey ip ∈ saves i w.hist

/-- The text a check takes for the limit. -/
def limitText (rt : Wsrt) : Reply := .string (decimal rt.reqcount.toNat)

/-- Between the two commands of a check: it has read no full counter, and
    the counter it has found has room, if it is still there. -/
structure Admitted (rt : Wsrt) (i : Nat) (ip : Bytes) (found : Bool) (w : ConnWorld) : Prop where
  counting : Counting rt w
  remote : cString ip ≠ localhost
  unsaved : saves i w.hist = []
  read : ∃ v, reads i w.hist = [(ipKey ip, v)] ∧ v ≠ some (limitText rt)
  absent : found = false → w.shared.db.get (ipKey ip) = none
  room : ∀ e, w.shared.db.get (ipKey ip) = some e → (count w ip : Int) < rt.reqcount

/-- What the answer of a check from another address than `localhost` says. -/
structure Answered (rt : Wsrt) (i : Nat) (ip : Bytes) (a : Int) (w : ConnWorld) : Prop where
  verdict : (a = srIpAccept ∧ saves i w.hist = [ipKey ip]) ∨ (a = srIpDeny ∧ saves i w.hist = [])
  read : ∃ v, reads i w.hist = [(ipKey ip, v)] ∧ (a = srIpDeny ↔ v = some (limitText rt))
  harmless : a = srIpDeny → ∀ ev ∈ w.hist, ev.tid = some i → ev.post = ev.pre

/-- The outline of the checks. -/
def outline (rt : Wsrt) : ConnOutline where
  Always := Counting rt
  Rest := Counting rt
  Pending := Admitted rt
  Failing _ _ _ _ := False
  Post i ip a w :=
    if cString ip = localhost then a = srIpAccept ∧ w.Fresh i else Answered rt i ip a w

/-- An event that counts on no address and creates no counter. -/
theorem Counting.push {rt : Wsrt} {w : ConnWorld} (h : Counting rt w) {ev : ConnEvent}
    (hs : savedKey ev = none) (hb : ev.post.broken = w.shared.broken)
    (hdb : ∀ k e, ev.post.db.get k = some e → w.shared.db.get k = some e) :
    Counting rt (w.push ev) := by
  have htally : ∀ ip, acceptedSince (ipKey ip) (w.push ev).hist =
      acceptedSince (ipKey ip) w.hist := fun ip => by
    rw [World.push_hist, acceptedSince_concat, tally_of_savedKey_ne (by simp [hs])]
  refine ⟨hb.trans h.connected, fun ip e he => ?_, fun ip => ?_, fun ip i hi => ?_⟩
  · simp only [count, htally]
    exact h.value ip e (hdb _ e he)
  · rw [htally]
    exact h.distinct ip
  · rw [htally] at hi
    have hi' := h.saved ip i hi
    by_cases hev : ev.tid = some i
    · simpa [saves, own_concat_self _ hev, hs] using hi'
    · simpa [saves, own_concat_ne _ hev] using hi'

/-- An event of thread `i` that counts on `ip`: the tally becomes `l`, to which
    only `i` is new, and the counter becomes its length. -/
theorem Counting.save {rt : Wsrt} {w : ConnWorld} (h : Counting rt w) {ev : ConnEvent} {i : Nat}
    {ip : Bytes} {e : Expiry.Entry Bytes} {l : List Nat} (hev : ev.tid = some i)
    (hs : savedKey ev = some (ipKey ip)) (hb : ev.post.broken = w.shared.broken)
    (hdb : ev.post.db = w.shared.db.put (ipKey ip) e)
    (hl : tally (ipKey ip) (acceptedSince (ipKey ip) w.hist) ev = l)
    (hval : e.val = decimal l.length) (hpos : 1 ≤ l.length) (hle : (l.length : Int) ≤ rt.reqcount)
    (hnodup : l.Nodup) (hmem : ∀ j ∈ l, j = i ∨ j ∈ acceptedSince (ipKey ip) w.hist) :
    Counting rt (w.push ev) := by
  have hself : ∀ ip', ipKey ip' = ipKey ip → acceptedSince (ipKey ip') (w.push ev).hist = l := by
    intro ip' hk
    rw [World.push_hist, acceptedSince_concat, hk, hl]
  have hother : ∀ ip', ipKey ip' ≠ ipKey ip → acceptedSince (ipKey ip') (w.push ev).hist =
      acceptedSince (ipKey ip') w.hist := by
    intro ip' hk
    rw [World.push_hist, acceptedSince_concat,
      tally_of_savedKey_ne (by rw [hs]; simpa using fun hk' => hk hk'.symm)]
  -- only this counter and this tally have changed
  refine ⟨hb.trans h.connected, fun ip' e' he => ?_, fun ip' => ?_, fun ip' j hj => ?_⟩
  · rw [World.push_shared, hdb] at he
    by_cases hk : ipKey ip' = ipKey ip
    · rw [hk] at he
      simp only [count, hself ip' hk]
      rw [Expiry.Map.eq_of_get_put_self he]
      exact ⟨hval, hpos, hle⟩
    · rw [Expiry.Map.get_put_ne _ _ hk] at he
      simp only [count, hother ip' hk]
      exact h.value ip' e' he
  · by_cases hk : ipKey ip' = ipKey ip
    · rw [hself ip' hk]
      exact hnodup
    · rw [hother ip' hk]
      exact h.distinct ip'
  · rw [World.push_hist]
    have hold : j ∈ acceptedSince (ipKey ip') w.hist → ipKey ip' ∈ saves j (w.hist ++ [ev]) := by
      intro hj
      have hj' := h.saved ip' j hj
      by_cases htid : ev.tid = some j
      · rw [saves, own_concat_self _ htid]
        exact List.mem_append_left _ hj'
      · rwa [saves, own_concat_ne _ htid]
    by_cases hk : ipKey ip' = ipKey ip
    · rw [hself ip' hk] at hj
      rcases hmem j hj with rfl | hj
      · rw [saves, own_concat_self _ hev, hs, hk]
        simp
      · exact hold (by rwa [hk])
    · rw [hother ip' hk] at hj
      exact hold hj

/-- An event of thread `i` that creates the counter of `ip`. -/
theorem Counting.create {rt : Wsrt} {w : ConnWorld} (h : Counting rt w) (hpos : 0 < rt.reqcount)
    {ev : ConnEvent} {i : Nat} {ip : Bytes} {e : Expiry.Entry Bytes} (hev : ev.tid = some i)
    (hs : savedKey ev = some (ipKey ip)) (hb : ev.post.broken = w.shared.broken)
    (hdb : ev.post.db = w.shared.db.put (ipKey ip) e) (hval : e.val = ascii "1")
    (hl : tally (ipKey ip) (acceptedSince (ipKey ip) w.hist) ev = [i]) :
    Counting rt (w.push ev) := by
  have hone : ascii "1" = decimal 1 := by decide +kernel
  apply h.save hev hs hb hdb hl (hval.trans hone)
  · exact Nat.le_refl 1
  · simp only [List.length_singleton]
    omega
  · simp
  · intro j hj
    exact .inl (List.mem_singleton.mp hj)

/-! ## The steps of a check -/

/-- What the GET of a check changes. -/
theorem read_frame {rt : Wsrt} {i : Nat} (ip : Bytes) {w : ConnWorld} (h : Counting rt w)
    (hf : w.Fresh i) (v : Option Reply) :
    Counting rt (afterConn w i ip (.get (ipKey ip)) (v, w.shared)) ∧
      saves i (afterConn w i ip (.get (ipKey ip)) (v, w.shared)).hist = [] ∧
      reads i (afterConn w i ip (.get (ipKey ip)) (v, w.shared)).hist = [(ipKey ip, v)] := by
  refine ⟨h.push rfl rfl fun _ _ he => he, ?_, ?_⟩
  · rw [World.push_hist, saves, own_concat_self _ rfl, own_fresh _ hf]
    rfl
  · rw [World.push_hist, reads, own_concat_self _ rfl, own_fresh _ hf]
    rfl

/-- The number a check makes of the text of a counter. -/
theorem Counting.atoi_value {rt : Wsrt} {w : ConnWorld} (h : Counting rt w)
    (hmax : rt.reqcount ≤ 2 ^ 31 - 1) {ip : Bytes} {e : Expiry.Entry Bytes}
    (he : w.shared.db.get (ipKey ip) = some e) : atoi (cString e.val) = count w ip := by
  obtain ⟨hval, -, hle⟩ := h.value ip e he
  rw [hval, cString_of_nulFree (nulFree_decimal _)]
  exact atoi_decimal (by omega)

/-- A counter spells the limit when it has reached it. -/
theorem Counting.text_eq_limit {rt : Wsrt} {w : ConnWorld} (h : Counting rt w) {ip : Bytes}
    {e : Expiry.Entry Bytes} (he : w.shared.db.get (ipKey ip) = some e) :
    Reply.string e.val = limitText rt ↔ (count w ip : Int) = rt.reqcount := by
  obtain ⟨hval, hpos, hle⟩ := h.value ip e he
  rw [hval, limitText, Reply.string.injEq]
  constructor
  · intro heq
    have := decimal_injective heq
    omega
  · intro heq
    congr 1
    omega

/-- A GET tells how many have been counted, and a check denies at the limit. -/
theorem get_step {rt : Wsrt} (hmax : rt.reqcount ≤ 2 ^ 31 - 1) {i : Nat} {ip : Bytes}
    {w : ConnWorld} {out : Outcome} (hip : cString ip ≠ localhost) (h : Counting rt w)
    (hf : w.Fresh i) (hout : Policy.faithful.outcome out = true) :
    (outline rt).AfterRead rt i ip
      (afterConn w i ip (.get (ipKey ip)) (w.shared.command (.get (ipKey ip)) out))
      (w.shared.command (.get (ipKey ip)) out).1 := by
  rw [Server.command_answered h.connected hout]
  cases hk : w.shared.db.get (ipKey ip) with
  | none =>
      rw [execute_get_none hk]
      -- no counter, so what was read is not the limit
      obtain ⟨hc, hs, hr⟩ := read_frame ip h hf (some .nil)
      exact ⟨hc, hip, hs, ⟨_, hr, by simp [limitText]⟩, fun _ => hk, fun e he => by simp [hk] at he⟩
  | some e =>
      rw [execute_get_some hk]
      obtain ⟨hc, hs, hr⟩ := read_frame ip h hf (some (.string e.val))
      have hcount : count (afterConn w i ip (.get (ipKey ip))
          (some (.string e.val), w.shared)) ip = count w ip := by simp [count, tally]
      simp only [ConnOutline.AfterRead, h.atoi_value hmax hk]
      have htext := h.text_eq_limit hk
      have hle := (h.value ip e hk).2.2
      split
      · -- room is left, so what was read is not the limit
        rename_i hlt
        refine ⟨hc, hip, hs, ⟨_, hr, fun heq => ?_⟩, (by rintro ⟨⟩), fun _ _ => by rwa [hcount]⟩
        have := htext.mp (Option.some.inj heq)
        omega
      · -- the counter is full, and its text is the limit
        rename_i hlt
        refine ⟨hc, ?_⟩
        simp only [outline, if_neg hip]
        refine ⟨.inr ⟨rfl, hs⟩, ⟨_, hr, fun _ => ?_, fun _ => rfl⟩, fun _ ev hm htid => ?_⟩
        · rw [htext.mpr (by omega)]
        · rw [hf.eq_of_mem_push hm htid]
          rfl

/-- INCR on a counter with room adds one to it. -/
theorem Admitted.incr {rt : Wsrt} (hmax : rt.reqcount ≤ 2 ^ 31 - 1) {i : Nat} {ip : Bytes}
    {found : Bool} {w : ConnWorld} (h : Admitted rt i ip found w) {e : Expiry.Entry Bytes}
    (hk : w.shared.db.get (ipKey ip) = some e) :
    execute w.shared.db (.incr (ipKey ip)) =
      (.integer (count w ip + 1),
        w.shared.db.put (ipKey ip) { e with val := decimal (count w ip + 1) }) := by
  obtain ⟨hval, -, -⟩ := h.counting.value ip e hk
  have hroom := h.room e hk
  have hcast : (count w ip : Int) + 1 = ((count w ip + 1 : Nat) : Int) := by omega
  simp only [execute, hk, incrEntry, hval]
  rw [string2ll_decimal (by omega)]
  simp only
  rw [if_pos (by omega), hcast, ll2string_natCast]

/-- The second command creates the counter of `i` alone or adds `i` to it. -/
theorem Admitted.save {rt : Wsrt} (hperiod : 0 < rt.reqperiod) (hmax : rt.reqcount ≤ 2 ^ 31 - 1)
    (hpos : 0 < rt.reqcount) {i : Nat} {ip : Bytes} {found : Bool} {w : ConnWorld}
    (h : Admitted rt i ip found w) :
    Counting rt (afterConn w i ip (saveCommand ip found rt.reqperiod)
      (some (execute w.shared.db (saveCommand ip found rt.reqperiod)).1,
        { w.shared with db := (execute w.shared.db (saveCommand ip found rt.reqperiod)).2 })) := by
  -- a thread is counted once only
  have hnot : i ∉ acceptedSince (ipKey ip) w.hist := fun hi => by
    simpa [h.unsaved] using h.counting.saved ip i hi
  cases found with
  | false =>
      have hx : execute w.shared.db (saveCommand ip false rt.reqperiod) =
          (.status (ascii "OK"), w.shared.db.put (ipKey ip)
            ⟨ascii "1", deadlineAfter w.shared.db.now (some rt.reqperiod.toNat)⟩) := by
        have hne : rt.reqperiod.toNat ≠ 0 := by omega
        simp [saveCommand, execute, hne]
      rw [hx]
      apply h.counting.create hpos rfl rfl rfl rfl rfl
      simp [tally, saveCommand]
  | true =>
      cases hk : w.shared.db.get (ipKey ip) with
      | none =>
          -- the counter expired in between, and INCR creates it again
          have hx : execute w.shared.db (saveCommand ip true rt.reqperiod) =
              (.integer 1, w.shared.db.put (ipKey ip) ⟨ascii "1", none⟩) := execute_incr_none hk
          rw [hx]
          apply h.counting.create hpos rfl rfl rfl rfl rfl
          simp [tally, saveCommand, hk]
      | some e =>
          have hroom := h.room e hk
          have hx : execute w.shared.db (saveCommand ip true rt.reqperiod) =
              (.integer (count w ip + 1),
                w.shared.db.put (ipKey ip) { e with val := decimal (count w ip + 1) }) :=
            h.incr hmax hk
          rw [hx]
          apply h.counting.save (l := acceptedSince (ipKey ip) w.hist ++ [i]) rfl rfl rfl rfl
          · simp [tally, saveCommand, hk]
          · simp [count]
          · simp
          · simp only [count] at hroom
            simp only [List.length_append, List.length_singleton]
            omega
          · refine List.nodup_append.mpr ⟨h.counting.distinct ip, by simp, ?_⟩
            rintro j hj _ hi rfl
            rw [List.mem_singleton.mp hi] at hj
            exact hnot hj
          · intro j hj
            rcases List.mem_append.mp hj with hj | hj
            · exact .inr hj
            · exact .inl (List.mem_singleton.mp hj)

/-- The second command of a check, and the answer that follows. -/
theorem save_step {rt : Wsrt} (hperiod : 0 < rt.reqperiod) (hmax : rt.reqcount ≤ 2 ^ 31 - 1)
    (hpos : 0 < rt.reqcount) {i : Nat} {ip : Bytes} {found : Bool} {w : ConnWorld} {out : Outcome}
    (h : Admitted rt i ip found w) (hout : Policy.faithful.outcome out = true) :
    (outline rt).AfterSave i ip
      (afterConn w i ip (saveCommand ip found rt.reqperiod)
        (w.shared.command (saveCommand ip found rt.reqperiod) out))
      (w.shared.command (saveCommand ip found rt.reqperiod) out).1 := by
  rw [Server.command_answered h.counting.connected hout]
  refine ⟨h.save hperiod hmax hpos, ?_⟩
  -- both writes save to the counter and neither is a read
  have hkey : ∀ v pre post,
      savedKey (connEvent i ip (saveCommand ip found rt.reqperiod) v pre post) =
        some (ipKey ip) ∧
      readReply (connEvent i ip (saveCommand ip found rt.reqperiod) v pre post) = none := by
    intro v pre post
    cases found <;> exact ⟨rfl, rfl⟩
  obtain ⟨v, hv, hne⟩ := h.read
  simp only [outline, if_neg h.remote]
  refine ⟨.inl ⟨rfl, ?_⟩, ⟨v, ?_, (by rintro ⟨⟩), fun hlim => absurd hlim hne⟩, (by rintro ⟨⟩)⟩
  · rw [World.push_hist, saves, own_concat_self _ rfl, (hkey _ _ _).1, ← saves, h.unsaved]
    rfl
  · rw [World.push_hist, reads, own_concat_self _ rfl, (hkey _ _ _).2, ← reads, hv]
    rfl

/-! ## Every run -/

theorem Counting.env {rt : Wsrt} {w : ConnWorld} (h : Counting rt w) {P : Policy} {e : Env}
    {s' : Server} (he : Server.env P e w.shared = some s') :
    Counting rt (w.push (.env e w.shared s')) :=
  h.push rfl (Server.env_frame he).1 (Server.env_frame he).2

/-- The counter may expire before the check comes to write it. -/
theorem Admitted.env {rt : Wsrt} {i : Nat} {ip : Bytes} {found : Bool} {w : ConnWorld}
    (h : Admitted rt i ip found w) {P : Policy} {e : Env} {s' : Server}
    (he : Server.env P e w.shared = some s') :
    Admitted rt i ip found (w.push (.env e w.shared s')) := by
  have hown : ∀ {β : Type} (f : ConnEvent → Option β),
      own f i (w.push (.env e w.shared s')).hist = own f i w.hist :=
    fun f => own_concat_ne f (by simp) _
  obtain ⟨-, hget⟩ := Server.env_frame he
  refine ⟨h.counting.env he, h.remote, (hown _).trans h.unsaved, ?_, fun hn => ?_, fun en hen => ?_⟩
  · obtain ⟨v, hv, hne⟩ := h.read
    exact ⟨v, (hown _).trans hv, hne⟩
  · rw [Option.eq_none_iff_forall_ne_some]
    intro en hen
    simpa [h.absent hn] using hget _ _ hen
  · have hcount : count (w.push (.env e w.shared s')) ip = count w ip := by simp [count, tally]
    rw [hcount]
    exact h.room en (hget _ _ hen)

/-- What others do does not change what a check has answered. -/
theorem Answered.push {rt : Wsrt} {i : Nat} {ip : Bytes} {a : Int} {w : ConnWorld}
    (h : Answered rt i ip a w) {ev : ConnEvent} (hev : ev.tid ≠ some i) :
    Answered rt i ip a (w.push ev) := by
  have hown : ∀ {β : Type} (f : ConnEvent → Option β),
      own f i (w.push ev).hist = own f i w.hist := fun f => own_concat_ne f hev _
  refine ⟨?_, ?_, fun ha ev' hm htid => ?_⟩
  · simpa only [saves, hown] using h.verdict
  · simpa only [reads, hown] using h.read
  · exact h.harmless ha ev' (World.mem_of_mem_push hm htid hev) htid

/-- Checks keep the count. -/
theorem outline_valid {rt : Wsrt} (hperiod : 0 < rt.reqperiod) (hpos : 0 < rt.reqcount)
    (hmax : rt.reqcount ≤ 2 ^ 31 - 1) : (outline rt).Valid rt .faithful where
  always_of_rest h := h
  always_of_pending h := h.counting
  always_of_failing h := h.elim
  rest_env h he := h.env he
  pending_env h he := h.env he
  failing_env h := h.elim
  post_push := by
    intro i ip a w ev h hev
    -- what is promised of an answer speaks of the own history only
    by_cases hip : cString ip = localhost
    · simp only [outline, if_pos hip] at h ⊢
      exact ⟨h.1, h.2.push hev⟩
    · simp only [outline, if_neg hip] at h ⊢
      exact h.push hev
  local_post := by
    intro i ip w hip _ hf
    simpa only [outline, if_pos hip, true_and] using hf
  get_step hip h hf hout := get_step hmax hip h hf hout
  save_step h hout := save_step hperiod hmax hpos h hout
  error_step h := h.elim

/-- The limiter counts exactly, from a database in which nobody is counted yet. -/
theorem counts_exactly {rt : Wsrt} (hperiod : 0 < rt.reqperiod) (hpos : 0 < rt.reqcount)
    (hmax : rt.reqcount ≤ 2 ^ 31 - 1) {db₀ : Db} (h₀ : ∀ ip, db₀.get (ipKey ip) = none)
    {h : List ConnEvent} {s : Sys Rai Server Bytes Int}
    (run : (connMachine .faithful rt).Run (Machine.init (Server.start db₀)) h s) :
    CountsExactly rt h s := by
  have V := outline_valid hperiod hpos hmax
  have hrest : (outline rt).Rest ⟨[], Server.start db₀⟩ := by
    refine ⟨rfl, fun ip e he => ?_, fun ip => List.nodup_nil, fun ip i hi => nomatch hi⟩
    simp [Server.start, h₀ ip] at he
  have hcount : Counting rt ⟨h, s.shared⟩ := V.always hrest run
  have hlocal : ∀ (i : Nat) (t : Thread Rai Bytes Int) (a : Int), s.threads[i]? = some t →
      t.code = .done a → cString t.req = localhost →
      a = srIpAccept ∧ ∀ ev ∈ h, ev.tid ≠ some i := by
    intro i t a ht ha hip
    have hpost := V.answered hrest run ht ha
    simp only [outline, if_pos hip] at hpost
    exact hpost
  have hremote : ∀ (i : Nat) (t : Thread Rai Bytes Int) (a : Int), s.threads[i]? = some t →
      t.code = .done a → cString t.req ≠ localhost → Answered rt i t.req a ⟨h, s.shared⟩ := by
    intro i t a ht ha hip
    have hpost := V.answered hrest run ht ha
    simp only [outline, if_neg hip] at hpost
    exact hpost
  refine ⟨hcount.value, hcount.distinct, fun ip i hi t a ht ha => ?_,
    fun i t a ht ha hip => (hremote i t a ht ha hip).verdict,
    fun i t a ht ha hip => (hremote i t a ht ha hip).read, fun i t ht ha => ?_, hlocal⟩
  -- who is counted has written to that key, and only who is accepted writes
  · have hsaved := hcount.saved ip i hi
    by_cases hip : cString t.req = localhost
    · have hnone : saves i h = [] :=
        own_fresh savedKey (w := ⟨h, s.shared⟩) (hlocal i t a ht ha hip).2
      simp [hnone] at hsaved
    · rcases (hremote i t a ht ha hip).verdict with ⟨rfl, hs⟩ | ⟨-, hs⟩
      · rw [hs, List.mem_singleton] at hsaved
        exact ⟨rfl, hsaved.symm, hip⟩
      · simp [hs] at hsaved
  · by_cases hip : cString t.req = localhost
    · cases (hlocal i t _ ht ha hip).1
    · exact (hremote i t _ ht ha hip).harmless rfl

/-- Two connections a second, one check in the gap of another. -/
def twoPerSecond : Wsrt := ⟨true, 1, 2, 0, 0, false, false⟩

def crowdedSchedule : List (Label Bytes Env Outcome) :=
  [.spawn (ascii "192.0.2.1"), .spawn (ascii "127.0.0.1"), .spawn (ascii "192.0.2.1"),
    .spawn (ascii "192.0.2.1"), .act 0 .answered, .act 0 .answered, .env (.tick 1),
    .act 0 .answered, .act 0 .answered, .act 3 .answered, .act 3 .answered, .act 3 .answered,
    .env (.tick 1), .act 3 .answered, .act 2 .answered, .act 2 .answered, .act 2 .answered]

theorem counts_exactly_crowded :
    ∃ h s, (connMachine .faithful twoPerSecond).Run (Machine.init (Server.start (.empty 0))) h s ∧
      s.threads.map (·.code.answer?) =
        [some srIpAccept, some srIpAccept, some srIpDeny, some srIpAccept] ∧
      acceptedSince (ipKey (ascii "192.0.2.1")) h = [0, 3] ∧ CountsExactly twoPerSecond h s := by
  have hrun : ((connMachine .faithful twoPerSecond).follow
      (Machine.init (Server.start (.empty 0))) crowdedSchedule).map
        (fun p => (p.2.threads.map (·.code.answer?),
          acceptedSince (ipKey (ascii "192.0.2.1")) p.1)) =
      some ([some srIpAccept, some srIpAccept, some srIpDeny, some srIpAccept], [0, 3]) := by
    decide +kernel
  obtain ⟨h, s, run, hs⟩ := Machine.exists_run_of_follow hrun
  obtain ⟨hans, hacc⟩ := Prod.mk.inj hs
  exact ⟨h, s, run, hans, hacc,
    counts_exactly (by decide) (by decide) (by decide) (fun _ => rfl) run⟩

end Count

end Webstore
