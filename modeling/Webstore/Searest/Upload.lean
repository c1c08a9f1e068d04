/-
  Webstore.Searest.Upload

  How an upload comes together.  Whatever pieces the library cuts it into, the
  handler keeps exactly the pieces it accepted, takes no more than the headers
  announced, and processes the request at the last call if and only if all of
  it has arrived.
-/
import Webstore.Searest

namespace Webstore

open Webstore.Libc Webstore.Sched

/-! ## Taking pieces up to a limit -/

section
variable {α : Type}

/-- The pieces taken after `acc` until one would exceed `n` in total. -/
def takeUpTo (n : Nat) (acc : List (List α)) : List (List α) → List (List α)
  | [] => acc
  | c :: cs => if (acc ++ [c]).flatten.length ≤ n then takeUpTo n (acc ++ [c]) cs else acc

/-- What is taken does not exceed the limit. -/
theorem length_takeUpTo_le {n : Nat} {acc : List (List α)} (h : acc.flatten.length ≤ n)
    (cs : List (List α)) : (takeUpTo n acc cs).flatten.length ≤ n := by
  induction cs generalizing acc with
  | nil => exact h
  | cons c cs ih =>
      simp only [takeUpTo]
      split
      · rename_i hc
        exact ih hc
      · exact h

theorem length_flatten_le_append (acc cs : List (List α)) :
    acc.flatten.length ≤ (acc ++ cs).flatten.length := by
  simp [List.flatten_append]

/-- Nothing is turned away as long as everything fits. -/
theorem takeUpTo_of_le {n : Nat} {acc cs : List (List α)}
    (h : (acc ++ cs).flatten.length ≤ n) : takeUpTo n acc cs = acc ++ cs := by
  induction cs generalizing acc with
  | nil => simp [takeUpTo]
  | cons c cs ih =>
      rw [List.append_cons acc c cs] at h ⊢
      have hc : (acc ++ [c]).flatten.length ≤ n := (length_flatten_le_append _ cs).trans h
      rw [takeUpTo, if_pos hc, ih h]

theorem takeUpTo_nil_of_le {n : Nat} {cs : List (List α)} (h : cs.flatten.length ≤ n) :
    takeUpTo n [] cs = cs :=
  takeUpTo_of_le (by simpa only [List.nil_append] using h)

/-- A taken piece is the next one. -/
theorem takeUpTo_prefix (n : Nat) (acc cs : List (List α)) :
    ∃ m, takeUpTo n acc cs = acc ++ cs.take m := by
  induction cs generalizing acc with
  | nil => exact ⟨0, by simp [takeUpTo]⟩
  | cons c cs ih =>
      simp only [takeUpTo]
      split
      · obtain ⟨m, hm⟩ := ih (acc ++ [c])
        exact ⟨m + 1, by simp [hm]⟩
      · exact ⟨0, by simp⟩

end

/-! ## The record between two calls -/

/-- The record once the pieces `acc` were accepted. -/
def Srci.received (ri : Srci) (acc : List Bytes) : Srci :=
  { ri with postData := acc.flatten, postDataLen := acc.flatten.length }

@[simp] theorem Srci.urllen_received (ri : Srci) (acc : List Bytes) :
    (ri.received acc).urllen = ri.urllen := rfl

/-- A record with nothing buffered. -/
theorem Srci.received_nil {ri : Srci} (h₁ : ri.postData = []) (h₂ : ri.postDataLen = 0) :
    ri.received [] = ri := by
  obtain ⟨m, url, urllen, n, data, len, code, page⟩ := ri
  cases h₁
  cases h₂
  rfl

/-- The length that the headers announce. -/
def Headers.announced (hdr : Headers) : Nat :=
  match hdr.contentLength with
  | some h => toSizeT (atol (cString h))
  | none => 0

/-- What a header call asks of a request. -/
structure Headers.Admitted (ws : Sri) (hdr : Headers) (url method : Bytes) (m : Method) :
    Prop where
  minUrl : ws.minUrlLen ≤ toInt (cString url).length
  maxUrl : toInt (cString url).length ≤ ws.maxUrlLen
  method : methodType method = some m
  length : hdr.announced ≤ ws.maxContentLength

/-- The record of a request whose headers were accepted. -/
def Headers.opened (hdr : Headers) (url : Bytes) (m : Method) : Srci :=
  { Srci.zero with
    methodType := m
    url := cString url
    urllen := toInt (cString url).length
    contentLength := hdr.announced }

@[simp] theorem Headers.urllen_opened (hdr : Headers) (url : Bytes) (m : Method) :
    (hdr.opened url m).urllen = toInt (cString url).length := by
  simp only [Headers.opened]

/-- A method the handler knows is spelled with three to seven letters. -/
theorem length_of_methodType {method : Bytes} {m : Method} (h : methodType method = some m) :
    3 ≤ (cString method).length ∧ (cString method).length ≤ 7 := by
  have hnames : (ascii "GET").length = 3 ∧ (ascii "POST").length = 4 ∧ (ascii "PUT").length = 3 ∧
      (ascii "DELETE").length = 6 ∧ (ascii "OPTIONS").length = 7 := by decide
  obtain ⟨h₁, h₂, h₃, h₄, h₅⟩ := hnames
  unfold methodType at h
  split at h
  · simp [*]
  split at h
  · simp [*]
  split at h
  · simp [*]
  split at h
  · simp [*]
  split at h
  · simp [*]
  · cases h

/-- A header call accepts or refuses, and either way nothing is buffered. -/
theorem uhdHeaders_cases (ws : Sri) (hdr : Headers) (url method : Bytes) :
    (∃ m, hdr.Admitted ws url method m ∧
      uhdHeaders ws hdr url method = .yes (hdr.opened url m)) ∨
    ((∀ m, ¬ hdr.Admitted ws url method m) ∧
      ∃ ri, uhdHeaders ws hdr url method = .no (some ri) ∧ ri.postData = [] ∧
        ri.postDataLen = 0) := by
  obtain ⟨_, _, _, contentLength⟩ := hdr
  unfold uhdHeaders
  simp only
  -- the checks of `uhd` in their order, each excluding a condition of `Admitted`
  split
  · rename_i hurl
    exact .inr ⟨fun m hm => absurd hm.minUrl (by omega), _, rfl, rfl, rfl⟩
  split
  · rename_i hurl
    exact .inr ⟨fun m hm => absurd hm.maxUrl (by omega), _, rfl, rfl, rfl⟩
  split
  · rename_i hmethod
    exact .inr ⟨fun m hm => absurd (length_of_methodType hm.method).1 (by omega), _, rfl, rfl, rfl⟩
  split
  · rename_i hmethod
    exact .inr ⟨fun m hm => absurd (length_of_methodType hm.method).2 (by omega), _, rfl, rfl, rfl⟩
  rename_i hmin hmax _ _
  -- with no Content-Length nothing is announced
  cases contentLength with
  | none =>
      simp only [Option.isSome_none, Bool.false_and, Bool.false_eq_true, if_false]
      cases hm : methodType method with
      | none => exact .inr ⟨fun m h => by simpa [hm] using h.method, _, rfl, rfl, rfl⟩
      | some m => exact .inl ⟨m, ⟨by omega, by omega, hm, Nat.zero_le _⟩, rfl⟩
  | some h =>
      simp only [Option.isSome_some, Bool.true_and, decide_eq_true_eq]
      split
      · rename_i hlen
        exact .inr ⟨fun m h => absurd h.length (Nat.not_le_of_lt hlen), _, rfl, rfl, rfl⟩
      · rename_i hlen
        cases hm : methodType method with
        | none => exact .inr ⟨fun m h => by simpa [hm] using h.method, _, rfl, rfl, rfl⟩
        | some m => exact .inl ⟨m, ⟨by omega, by omega, hm, Nat.le_of_not_lt hlen⟩, rfl⟩

/-! ## The calls for one request -/

/-- No pointer the library passes is NULL. -/
def Headers.Present (hdr : Headers) : Prop :=
  hdr.url.isSome ∧ hdr.method.isSome ∧ hdr.version.isSome

/-- What the first call comes to. -/
theorem uhdReceive_headers (ws : Sri) (hdr : Headers) :
    (hdr.Present ∧ ∃ url method m, hdr.url = some url ∧ hdr.method = some method ∧
      hdr.Admitted ws url method m ∧ uhdReceive ws hdr [] none = .ok (.yes (hdr.opened url m))) ∨
    (∃ cls, uhdReceive ws hdr [] none = .ok (.no cls) ∧
      (∀ url method m, hdr.Present → hdr.url = some url → hdr.method = some method →
        ¬ hdr.Admitted ws url method m) ∧
      ∀ ri, cls = some ri → ri.postData = [] ∧ ri.postDataLen = 0) := by
  unfold uhdReceive
  split
  · rename_i url method version hurl hmethod hversion
    -- all three pointers are there
    have hpresent : hdr.Present := by simp [Headers.Present, *]
    rcases uhdHeaders_cases ws hdr url method with ⟨m, hm, h⟩ | ⟨hno, ri, h, hdata, hlen⟩
    · rw [h]
      exact .inl ⟨hpresent, url, method, m, hurl, hmethod, hm, rfl⟩
    · rw [h]
      refine .inr ⟨some ri, rfl, ?_, ?_⟩
      · rintro url' method' m - hurl' hmethod'
        rw [hurl] at hurl'
        rw [hmethod] at hmethod'
        cases hurl'
        cases hmethod'
        exact hno m
      · rintro _ ⟨⟩
        exact ⟨hdata, hlen⟩
  · rename_i hnull
    refine .inr ⟨none, rfl, ?_, nofun⟩
    rintro url method m ⟨-, -, hversion⟩ hurl hmethod
    obtain ⟨version, hversion⟩ := Option.isSome_iff_exists.mp hversion
    exact absurd hversion (hnull url method version hurl hmethod)

/-- A later call takes the piece if it fits in what was announced. -/
theorem uhdReceive_piece {ws : Sri} {hdr : Headers} (hp : hdr.Present) {ri : Srci}
    {acc : List Bytes} {c : Bytes} (hc : c ≠ []) (hsum : acc.flatten.length + c.length < 2 ^ 64) :
    uhdReceive ws hdr c (some (ri.received acc)) =
      .ok (if (acc ++ [c]).flatten.length ≤ ri.contentLength then .yes (ri.received (acc ++ [c]))
        else .no (some (ri.received acc))) := by
  obtain ⟨url, hurl⟩ := Option.isSome_iff_exists.mp hp.1
  obtain ⟨method, hmethod⟩ := Option.isSome_iff_exists.mp hp.2.1
  obtain ⟨version, hversion⟩ := Option.isSome_iff_exists.mp hp.2.2
  -- the sum of the lengths does not wrap
  have hwrap : (acc.flatten.length + c.length) % 2 ^ 64 = acc.flatten.length + c.length :=
    Nat.mod_eq_of_lt hsum
  have hflat : (acc ++ [c]).flatten = acc.flatten ++ c := by simp [List.flatten_append]
  simp only [uhdReceive, hurl, hmethod, hversion, if_pos hc, Srci.received, hwrap, hflat,
    List.length_append, memcpy_realloc]
  by_cases hfit : acc.flatten.length + c.length ≤ ri.contentLength
  · rw [if_neg (by omega), if_pos hfit]
    rfl
  · rw [if_pos (by omega), if_neg hfit]
    rfl

/-- The last call looks whether everything has arrived. -/
theorem uhdReceive_last {ws : Sri} {hdr : Headers} (hp : hdr.Present) {ri : Srci}
    {acc : List Bytes} :
    uhdReceive ws hdr [] (some (ri.received acc)) =
      .ok (if acc.flatten.length < ri.contentLength then .no (some (ri.received acc))
        else .complete (ri.received acc)) := by
  obtain ⟨url, hurl⟩ := Option.isSome_iff_exists.mp hp.1
  obtain ⟨method, hmethod⟩ := Option.isSome_iff_exists.mp hp.2.1
  obtain ⟨version, hversion⟩ := Option.isSome_iff_exists.mp hp.2.2
  simp only [uhdReceive, hurl, hmethod, hversion, ne_eq, not_true_eq_false, if_false]
  by_cases hlt : acc.flatten.length < ri.contentLength
  · rw [if_pos hlt, if_pos (by exact hlt)]
    rfl
  · rw [if_neg hlt, if_neg (by exact hlt)]
    rfl

/-- The calls made so far: the pieces accepted, and what the last call came to. -/
structure Calls where
  accepted : List Bytes
  last : Received

/-- The next call, unless the last one was the end. -/
def Calls.next (ws : Sri) (hdr : Headers) (st : Calls) (c : Bytes) : Except Fault Calls :=
  match st.last with
  | .yes ri => do
      match ← uhdReceive ws hdr c (some ri) with
      | .yes ri => return ⟨st.accepted ++ [c], .yes ri⟩
      | last => return ⟨st.accepted, last⟩
  | _ => return st

/-- The calls for the headers and these pieces. -/
def calls (ws : Sri) (hdr : Headers) (chunks : List Bytes) : Except Fault Calls := do
  let last ← uhdReceive ws hdr [] none
  chunks.foldlM (Calls.next ws hdr) ⟨[], last⟩

/-- The calls for a request whose upload comes in these pieces. -/
def allCalls (ws : Sri) (hdr : Headers) (chunks : List Bytes) : Except Fault Calls := do
  (← calls ws hdr chunks).next ws hdr []

/-- Pieces as the library cuts them. -/
def Pieces (chunks : List Bytes) : Prop := ∀ c ∈ chunks, c ≠ [] ∧ c.length ≤ longMax

/-- Two lengths up to `LONG_MAX` add up within a `size_t`. -/
theorem add_lt_of_le_longMax {m n : Nat} (hm : m ≤ longMax) (hn : n ≤ longMax) :
    m + n < 2 ^ 64 := by
  unfold longMax at hm hn
  omega

theorem Pieces.tail {c : Bytes} {cs : List Bytes} (h : Pieces (c :: cs)) : Pieces cs :=
  fun c' hm => h c' (List.mem_cons_of_mem _ hm)

/-- Once a call has said no there are no more. -/
theorem foldlM_next_no (ws : Sri) (hdr : Headers) (acc : List Bytes) (cls : Option Srci)
    (cs : List Bytes) :
    cs.foldlM (Calls.next ws hdr) ⟨acc, .no cls⟩ = .ok ⟨acc, .no cls⟩ := by
  induction cs with
  | nil => rfl
  | cons c cs ih => simpa [List.foldlM_cons, Calls.next] using ih

/-- The pieces after `acc`: accepted up to the announced length. -/
theorem foldlM_next (ws : Sri) {hdr : Headers} (hp : hdr.Present) {ri : Srci}
    (hn : ri.contentLength ≤ longMax) {cs : List Bytes} (hcs : Pieces cs) {acc : List Bytes}
    (hacc : acc.flatten.length ≤ ri.contentLength) :
    cs.foldlM (Calls.next ws hdr) ⟨acc, .yes (ri.received acc)⟩ =
      .ok ⟨takeUpTo ri.contentLength acc cs,
        if (acc ++ cs).flatten.length ≤ ri.contentLength then .yes (ri.received (acc ++ cs))
        else .no (some (ri.received (takeUpTo ri.contentLength acc cs)))⟩ := by
  induction cs generalizing acc with
  | nil => simp only [List.foldlM_nil, takeUpTo, List.append_nil, if_pos hacc, pure_ok]
  | cons c cs ih =>
      obtain ⟨hc, hlen⟩ := hcs c List.mem_cons_self
      rw [List.foldlM_cons, Calls.next]
      have hsum := add_lt_of_le_longMax (hacc.trans hn) hlen
      simp only [uhdReceive_piece hp hc hsum, ok_bind, takeUpTo]
      -- a piece that does not fit ends it: no later call takes one
      by_cases hfit : (acc ++ [c]).flatten.length ≤ ri.contentLength
      · simp only [if_pos hfit, pure_ok, ok_bind]
        rw [ih hcs.tail hfit, List.append_cons acc c cs]
      · have hnot : ¬ (acc ++ c :: cs).flatten.length ≤ ri.contentLength := by
          rw [List.append_cons]
          exact fun h => hfit ((length_flatten_le_append _ cs).trans h)
        simp only [if_neg hfit, if_neg hnot, pure_ok, ok_bind]
        exact foldlM_next_no ws hdr acc _ cs

/-! ## The request as a whole -/

/-- The answer to a request that has arrived. -/
def uhdAnswer (ws : Sri) (ri : Srci) : Prog Rai MhdResult := do
  return (queuePage (← processRequest ws ri)).1

/-- What follows a call, given what the call has received. -/
def Received.andThen (ws : Sri) (f : MhdResult × Option Srci → Prog Rai MhdResult) :
    Received → Prog Rai MhdResult
  | .no cls => f (.no, cls)
  | .yes ri => f (.yes, some ri)
  | .complete ri => processRequest ws ri >>= fun r => f (queuePage r)

/-- What is done after a call depends on what it received. -/
theorem uhdRequestStarted_bind {ws : Sri} {hdr : Headers} {c : Bytes} {cls : Option Srci}
    {out : Received} (h : uhdReceive ws hdr c cls = .ok out)
    (f : MhdResult × Option Srci → Prog Rai MhdResult) :
    (uhdRequestStarted ws hdr c cls >>= f) = out.andThen ws f := by
  unfold uhdRequestStarted
  rw [h, orDie_ok, Prog.done_bind]
  cases out with
  | no cls => rfl
  | yes ri => rfl
  | complete ri => exact Prog.bind_assoc _ _ _

/-- The rest of a request once `acc` has arrived. -/
theorem uhdUpload_eq (ws : Sri) {hdr : Headers} (hp : hdr.Present) {ri : Srci}
    (hn : ri.contentLength ≤ longMax) {cs : List Bytes} (hcs : Pieces cs) {acc : List Bytes}
    (hacc : acc.flatten.length ≤ ri.contentLength) :
    uhdUpload ws hdr (some (ri.received acc)) cs =
      if (acc ++ cs).flatten.length = ri.contentLength then
        uhdAnswer ws (ri.received (acc ++ cs))
      else .done .no := by
  induction cs generalizing acc with
  | nil =>
      rw [uhdUpload, uhdRequestStarted_bind (uhdReceive_last hp), List.append_nil]
      by_cases hlt : acc.flatten.length < ri.contentLength
      · simp only [if_pos hlt, if_neg (Nat.ne_of_lt hlt)]
        rfl
      · simp only [if_neg hlt, if_pos (Nat.le_antisymm hacc (Nat.le_of_not_lt hlt))]
        rfl
  | cons c cs ih =>
      obtain ⟨hc, hlen⟩ := hcs c List.mem_cons_self
      have hsum := add_lt_of_le_longMax (hacc.trans hn) hlen
      rw [uhdUpload, uhdRequestStarted_bind (uhdReceive_piece hp hc hsum)]
      -- too much is refused at once, too little at the last call
      by_cases hfit : (acc ++ [c]).flatten.length ≤ ri.contentLength
      · simp only [if_pos hfit, Received.andThen]
        rw [ih hcs.tail hfit, List.append_cons acc c cs]
      · have hnot : ¬ (acc ++ c :: cs).flatten.length = ri.contentLength := by
          rw [List.append_cons]
          exact fun h => hfit (h ▸ length_flatten_le_append _ cs)
        simp only [if_neg hfit, if_neg hnot]
        rfl

/-- The rest of a request whose pieces are all that was announced. -/
theorem uhdUpload_complete (ws : Sri) {hdr : Headers} (hp : hdr.Present) {ri : Srci}
    (hn : ri.contentLength < 2 ^ 64) {cs : List Bytes} (hcs : ∀ c ∈ cs, c ≠ []) {acc : List Bytes}
    (hall : (acc ++ cs).flatten.length = ri.contentLength) :
    uhdUpload ws hdr (some (ri.received acc)) cs = uhdAnswer ws (ri.received (acc ++ cs)) := by
  induction cs generalizing acc with
  | nil =>
      rw [List.append_nil] at hall ⊢
      rw [uhdUpload, uhdRequestStarted_bind (uhdReceive_last hp), if_neg (Nat.not_lt_of_le hall.ge)]
      rfl
  | cons c cs ih =>
      rw [List.append_cons] at hall
      have hfit : (acc ++ [c]).flatten.length ≤ ri.contentLength :=
        hall ▸ length_flatten_le_append _ cs
      have hsum : acc.flatten.length + c.length < 2 ^ 64 := by
        rw [List.flatten_append, List.flatten_singleton, List.length_append] at hfit
        omega
      rw [uhdUpload, uhdRequestStarted_bind (uhdReceive_piece hp (hcs c List.mem_cons_self) hsum),
        if_pos hfit, List.append_cons acc c cs]
      exact ih (fun c' hm => hcs c' (List.mem_cons_of_mem _ hm)) hall

/-- A request that arrives as announced is answered. -/
theorem uhdRequest_complete {ws : Sri} {hdr : Headers} (hp : hdr.Present) {url : Bytes}
    {m : Method} (h : uhdReceive ws hdr [] none = .ok (.yes (hdr.opened url m)))
    {chunks : List Bytes} (hcs : ∀ c ∈ chunks, c ≠ [])
    (hall : chunks.flatten.length = hdr.announced) :
    uhdRequest ws hdr chunks = uhdAnswer ws ((hdr.opened url m).received chunks) := by
  have hn : hdr.announced < 2 ^ 64 := by
    unfold Headers.announced
    split
    · unfold toSizeT
      omega
    · decide
  rw [uhdRequest, uhdRequestStarted_bind h]
  have hnil : (hdr.opened url m).received [] = hdr.opened url m := Srci.received_nil rfl rfl
  have hall' : ([] ++ chunks).flatten.length = (hdr.opened url m).contentLength := hall
  have hupload := uhdUpload_complete ws hp hn hcs hall'
  rw [hnil] at hupload
  exact hupload

/-- The record a call leaves. -/
def Received.conCls : Received → Option Srci
  | .no cls => cls
  | .yes ri => some ri
  | .complete ri => some ri

/-- What a request whose headers were accepted comes to. -/
theorem calls_accepted {ws : Sri} {hdr : Headers} (hp : hdr.Present) {url : Bytes} {m : Method}
    (h : uhdReceive ws hdr [] none = .ok (.yes (hdr.opened url m)))
    (hn : hdr.announced ≤ longMax) {chunks : List Bytes} (hcs : Pieces chunks) :
    calls ws hdr chunks =
        .ok ⟨takeUpTo hdr.announced [] chunks,
          if chunks.flatten.length ≤ hdr.announced then .yes ((hdr.opened url m).received chunks)
          else .no (some ((hdr.opened url m).received (takeUpTo hdr.announced [] chunks)))⟩ ∧
      allCalls ws hdr chunks =
        .ok ⟨takeUpTo hdr.announced [] chunks,
          if chunks.flatten.length = hdr.announced then
            .complete ((hdr.opened url m).received chunks)
          else .no (some ((hdr.opened url m).received (takeUpTo hdr.announced [] chunks)))⟩ ∧
      uhdRequest ws hdr chunks =
        if chunks.flatten.length = hdr.announced then
          uhdAnswer ws ((hdr.opened url m).received chunks)
        else .done .no := by
  -- the first call has opened a record with nothing in it
  have hnil : (hdr.opened url m).received [] = hdr.opened url m := Srci.received_nil rfl rfl
  have hnone : ([] : List Bytes).flatten.length ≤ (hdr.opened url m).contentLength :=
    Nat.zero_le _
  have hfold := foldlM_next ws hp hn hcs hnone
  have hupload := uhdUpload_eq ws hp hn hcs hnone
  rw [hnil] at hfold hupload
  rw [List.nil_append] at hfold hupload
  have hcalls : calls ws hdr chunks =
      .ok ⟨takeUpTo hdr.announced [] chunks,
        if chunks.flatten.length ≤ hdr.announced then .yes ((hdr.opened url m).received chunks)
        else .no (some ((hdr.opened url m).received (takeUpTo hdr.announced [] chunks)))⟩ := by
    rw [calls, h, ok_bind]
    exact hfold
  have hlast : uhdReceive ws hdr [] (some ((hdr.opened url m).received chunks)) =
      .ok (if chunks.flatten.length < hdr.announced then
        .no (some ((hdr.opened url m).received chunks))
      else .complete ((hdr.opened url m).received chunks)) := uhdReceive_last hp
  refine ⟨hcalls, ?_, ?_⟩
  · rw [allCalls, hcalls, ok_bind, Calls.next]
    -- the last call sees whether everything came, if nothing was too much
    by_cases hle : chunks.flatten.length ≤ hdr.announced
    · have htake : takeUpTo hdr.announced [] chunks = chunks := takeUpTo_nil_of_le hle
      by_cases heq : chunks.flatten.length = hdr.announced
      · rw [if_neg (Nat.not_lt_of_le heq.ge)] at hlast
        simp only [if_pos hle, hlast, ok_bind, htake, if_pos heq]
        rfl
      · rw [if_pos (Nat.lt_of_le_of_ne hle heq)] at hlast
        simp only [if_pos hle, hlast, ok_bind, htake, if_neg heq]
        rfl
    · have hne : ¬ chunks.flatten.length = hdr.announced := fun heq => hle heq.le
      simp only [if_neg hle, if_neg hne]
      rfl
  · rw [uhdRequest, uhdRequestStarted_bind h]
    exact hupload

/-- What a request whose headers were refused comes to. -/
theorem calls_refused {ws : Sri} {hdr : Headers} {cls : Option Srci}
    (h : uhdReceive ws hdr [] none = .ok (.no cls)) (chunks : List Bytes) :
    calls ws hdr chunks = .ok ⟨[], .no cls⟩ ∧ allCalls ws hdr chunks = .ok ⟨[], .no cls⟩ ∧
      uhdRequest ws hdr chunks = .done .no := by
  have hcalls : calls ws hdr chunks = .ok ⟨[], .no cls⟩ := by
    rw [calls, h, ok_bind, foldlM_next_no]
  refine ⟨hcalls, ?_, ?_⟩
  · rw [allCalls, hcalls]
    rfl
  · rw [uhdRequest, uhdRequestStarted_bind h]
    rfl

/-! ## Every chunking -/

/-- What the handler promises about an upload, in whatever pieces it comes. -/
structure Reassembles (ws : Sri) (hdr : Headers) (chunks : List Bytes) : Prop where
  /-- No call dies. -/
  total : ∃ st st', calls ws hdr chunks = .ok st ∧ allCalls ws hdr chunks = .ok st'
  announced : ∀ ri, uhdReceive ws hdr [] none = .ok (.yes ri) → ri.contentLength = hdr.announced
  /-- Every state, before the last call and after it. -/
  state : ∀ st ri, calls ws hdr chunks = .ok st ∨ allCalls ws hdr chunks = .ok st →
    st.last.conCls = some ri →
    (ri.contentLength ≤ ws.maxContentLength ∨
      uhdReceive ws hdr [] none = .ok (.no (some ri))) ∧
    ri.postDataLen ≤ ri.contentLength ∧ ri.postData.length = ri.postDataLen ∧
    ri.postData = st.accepted.flatten ∧ st.accepted <+: chunks
  /-- A further piece is taken or leaves the record as it was. -/
  piece : ∀ st ri, calls ws hdr chunks = .ok st → st.last = .yes ri →
    ∀ c : Bytes, c ≠ [] → c.length ≤ longMax →
      ri.postDataLen + c.length < 2 ^ 64 ∧
      uhdReceive ws hdr c (some ri) =
        .ok (if ri.postDataLen + c.length ≤ ri.contentLength then
          .yes { ri with postData := ri.postData ++ c, postDataLen := ri.postDataLen + c.length }
        else .no (some ri))
  /-- `process_request` runs at the last call or not at all. -/
  once : ∀ st ri, calls ws hdr chunks = .ok st → st.last ≠ .complete ri
  processed : (∃ st ri, allCalls ws hdr chunks = .ok st ∧ st.last = .complete ri) ↔
    ∃ ri, uhdReceive ws hdr [] none = .ok (.yes ri) ∧ chunks.flatten.length = ri.contentLength
  request : ∀ st, allCalls ws hdr chunks = .ok st →
    uhdRequest ws hdr chunks =
      match st.last with
      | .complete ri => uhdAnswer ws ri
      | _ => .done .no
  /-- The outcome depends on what was uploaded, not on how. -/
  chunking : ∀ chunks', Pieces chunks' → chunks'.flatten = chunks.flatten →
    uhdRequest ws hdr chunks' = uhdRequest ws hdr chunks

/-- A request whose first call is refused gets no body. -/
theorem reassembles_of_refused {ws : Sri} {hdr : Headers} {cls : Option Srci}
    (h : uhdReceive ws hdr [] none = .ok (.no cls))
    (hcls : ∀ ri, cls = some ri → ri.postData = [] ∧ ri.postDataLen = 0) (chunks : List Bytes) :
    Reassembles ws hdr chunks := by
  obtain ⟨hcalls, hall, hrequest⟩ := calls_refused h chunks
  refine ⟨⟨_, _, hcalls, hall⟩, ?_, ?_, ?_, ?_, ?_, ?_, ?_⟩
  · intro ri hyes
    rw [h] at hyes
    cases hyes
  · intro st ri hst hri
    -- nothing is taken, so there is one state only
    have heq : st = ⟨[], .no cls⟩ := by
      rcases hst with hst | hst
      · rw [hcalls] at hst
        exact (Except.ok.inj hst).symm
      · rw [hall] at hst
        exact (Except.ok.inj hst).symm
    subst heq
    obtain rfl : cls = some ri := hri
    obtain ⟨hdata, hlen⟩ := hcls ri rfl
    exact ⟨.inr h, by omega, by simp [hdata, hlen], by simp [hdata], List.nil_prefix⟩
  · intro st ri hst hyes
    rw [hcalls] at hst
    cases hst
    cases hyes
  · intro st ri hst hyes
    rw [hcalls] at hst
    cases hst
    cases hyes
  · constructor
    · rintro ⟨st, ri, hst, hyes⟩
      rw [hall] at hst
      cases hst
      cases hyes
    · rintro ⟨ri, hyes, -⟩
      rw [h] at hyes
      cases hyes
  · intro st hst
    rw [hall] at hst
    cases hst
    exact hrequest
  · intro chunks' _ _
    rw [hrequest, (calls_refused h chunks').2.2]

/-- Before the last call and after it, the record holds the pieces taken so far. -/
theorem record_of_accepted {ws : Sri} {hdr : Headers} (hp : hdr.Present) {url : Bytes}
    {m : Method} (h : uhdReceive ws hdr [] none = .ok (.yes (hdr.opened url m)))
    (hn : hdr.announced ≤ longMax) {chunks : List Bytes} (hcs : Pieces chunks) {st : Calls}
    {ri : Srci} (hst : calls ws hdr chunks = .ok st ∨ allCalls ws hdr chunks = .ok st)
    (hri : st.last.conCls = some ri) :
    ri = (hdr.opened url m).received st.accepted ∧
      st.accepted = takeUpTo hdr.announced [] chunks := by
  obtain ⟨hcalls, hall, -⟩ := calls_accepted hp h hn hcs
  rcases hst with hst | hst
  · rw [hcalls] at hst
    cases hst
    refine ⟨?_, rfl⟩
    -- a body that is too long is cut before the piece that passes the limit
    by_cases hle : chunks.flatten.length ≤ hdr.announced
    · simp only [if_pos hle] at hri
      cases hri
      rw [takeUpTo_nil_of_le hle]
    · simp only [if_neg hle] at hri
      cases hri
      rfl
  · rw [hall] at hst
    cases hst
    refine ⟨?_, rfl⟩
    by_cases heq : chunks.flatten.length = hdr.announced
    · simp only [if_pos heq] at hri
      cases hri
      rw [takeUpTo_nil_of_le heq.le]
    · simp only [if_neg heq] at hri
      cases hri
      rfl

/-- A piece behind pieces that all fitted in. -/
theorem piece_of_accepted {ws : Sri} {hdr : Headers} (hp : hdr.Present) {url : Bytes}
    {m : Method} (h : uhdReceive ws hdr [] none = .ok (.yes (hdr.opened url m)))
    (hn : hdr.announced ≤ longMax) {chunks : List Bytes} (hcs : Pieces chunks) {st : Calls}
    {ri : Srci} (hst : calls ws hdr chunks = .ok st) (hyes : st.last = .yes ri) {c : Bytes}
    (hc : c ≠ []) (hlen : c.length ≤ longMax) :
    ri.postDataLen + c.length < 2 ^ 64 ∧
      uhdReceive ws hdr c (some ri) =
        .ok (if ri.postDataLen + c.length ≤ ri.contentLength then
          .yes { ri with postData := ri.postData ++ c, postDataLen := ri.postDataLen + c.length }
        else .no (some ri)) := by
  rw [(calls_accepted hp h hn hcs).1] at hst
  cases hst
  by_cases hle : chunks.flatten.length ≤ hdr.announced
  · rw [if_pos hle] at hyes
    cases hyes
    -- neither length comes near 2^64, so the sum does not wrap
    have hsum : chunks.flatten.length + c.length < 2 ^ 64 :=
      add_lt_of_le_longMax (hle.trans hn) hlen
    have hflat : (chunks ++ [c]).flatten = chunks.flatten ++ c := by simp [List.flatten_append]
    refine ⟨hsum, ?_⟩
    rw [uhdReceive_piece hp hc hsum]
    simp only [Srci.received, hflat, List.length_append]
    rfl
  · rw [if_neg hle] at hyes
    cases hyes

/-- A request whose first call is accepted gets its body in order, as far as was
    announced. -/
theorem reassembles_of_accepted {ws : Sri} {hdr : Headers} (hp : hdr.Present) {url : Bytes}
    {m : Method} (h : uhdReceive ws hdr [] none = .ok (.yes (hdr.opened url m)))
    (hmax : hdr.announced ≤ ws.maxContentLength) (hn : hdr.announced ≤ longMax)
    {chunks : List Bytes} (hcs : Pieces chunks) : Reassembles ws hdr chunks := by
  obtain ⟨hcalls, hall, hrequest⟩ := calls_accepted hp h hn hcs
  refine ⟨⟨_, _, hcalls, hall⟩, ?_, ?_, ?_, ?_, ?_, ?_, ?_⟩
  · intro ri hyes
    rw [h] at hyes
    cases hyes
    rfl
  · intro st ri hst hri
    obtain ⟨rfl, hacc⟩ := record_of_accepted hp h hn hcs hst hri
    have hlen : st.accepted.flatten.length ≤ hdr.announced := by
      rw [hacc]
      exact length_takeUpTo_le (Nat.zero_le _) chunks
    -- the pieces that are taken are the first few
    obtain ⟨k, hk⟩ := takeUpTo_prefix hdr.announced [] chunks
    refine ⟨.inl hmax, hlen, rfl, rfl, ?_⟩
    rw [hacc, hk]
    exact List.take_prefix k chunks
  · intro st ri hst hyes c hc hlen
    exact piece_of_accepted hp h hn hcs hst hyes hc hlen
  · intro st ri hst hyes
    rw [hcalls] at hst
    cases hst
    simp only at hyes
    split at hyes <;> cases hyes
  · constructor
    · rintro ⟨st, ri, hst, hyes⟩
      rw [hall] at hst
      cases hst
      -- the request is complete only when all that was announced came
      by_cases heq : chunks.flatten.length = hdr.announced
      · exact ⟨_, h, heq⟩
      · simp only [if_neg heq] at hyes
        cases hyes
    · rintro ⟨ri, hyes, heq⟩
      rw [h] at hyes
      cases hyes
      exact ⟨_, (hdr.opened url m).received chunks, hall, if_pos heq⟩
  · intro st hst
    rw [hall] at hst
    cases hst
    rw [hrequest]
    by_cases heq : chunks.flatten.length = hdr.announced
    · simp only [if_pos heq]
    · simp only [if_neg heq]
  · intro chunks' hcs' hflat
    rw [hrequest, (calls_accepted hp h hn hcs').2.2, hflat]
    simp only [Srci.received, hflat]

/-- Uploads come together. -/
theorem upload_reassembles {ws : Sri} (hmax : ws.maxContentLength ≤ longMax) (hdr : Headers)
    {chunks : List Bytes} (hcs : Pieces chunks) : Reassembles ws hdr chunks := by
  rcases uhdReceive_headers ws hdr with ⟨hp, url, method, m, -, -, hm, h⟩ | ⟨cls, h, -, hcls⟩
  · exact reassembles_of_accepted hp h hm.length (hm.length.trans hmax) hcs
  · exact reassembles_of_refused h hcls chunks

/-- A POST of ten bytes. -/
def tenBytes : Headers :=
  ⟨some (ascii "/store/128/"), some (ascii "POST"), some (ascii "HTTP/1.1"), some (ascii "10")⟩

theorem upload_reassembles_split :
    (searestNew 11 139 10).maxContentLength ≤ longMax ∧
      Pieces [ascii "Hello", ascii "World"] ∧
      Reassembles (searestNew 11 139 10) tenBytes [ascii "Hello", ascii "World"] := by
  have hcs : Pieces [ascii "Hello", ascii "World"] := by
    unfold Pieces
    decide +kernel
  exact ⟨by decide, hcs, upload_reassembles (by decide) tenBytes hcs⟩

/-- The length of a refused upload stays in the record. -/
theorem refused_length_exceeds :
    ∃ st ri, calls (searestNew 11 139 9) tenBytes [] = .ok st ∧ st.last.conCls = some ri ∧
      ¬ ri.contentLength ≤ (searestNew 11 139 9).maxContentLength := by
  have hcalls : (calls (searestNew 11 139 9) tenBytes []).toOption.bind
      (fun st => st.last.conCls.map Srci.contentLength) = some 10 := by decide +kernel
  cases hst : calls (searestNew 11 139 9) tenBytes [] with
  | error f =>
      rw [hst] at hcalls
      cases hcalls
  | ok st =>
      rw [hst] at hcalls
      obtain ⟨ri, hri, hlen⟩ := Option.map_eq_some_iff.mp hcalls
      refine ⟨st, ri, rfl, hri, ?_⟩
      rw [hlen]
      decide

end Webstore
