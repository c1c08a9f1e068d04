/-
  Webstore.Searest.Nodes

  What `process_request` does after any calls on a fresh instance: it calls
  the callback of the earliest node whose root the URL begins with, once, and
  no other.  The numbers of the nodes are `unsigned int`s and the length that
  is handed to the callback is an `int`, so both are right only as far as
  these go.
-/
import Webstore.Searest.Table

namespace Webstore.Nodelist

open Webstore.Libc Webstore.Sched

variable {Cb Nud : Type} {α : Type}

/-! ## The calls a program makes -/

/-- The program calls these callbacks in turn, whatever they give back, and
    then answers. -/
def CallsOnly : List (Invocation Cb Nud) → Prog (NodeSig Cb Nud) α → Prop
  | cs, .done _ => cs = []
  | cs, .lock p => CallsOnly cs p
  | cs, .unlock p => CallsOnly cs p
  | cs, .op (.call c) k => ∃ rest, cs = c :: rest ∧ ∀ r, CallsOnly rest (k r)
  | cs, .op .chronStop k => ∀ d, CallsOnly cs (k d)
  | _, .op .die _ => False

/-- A program makes one list of calls. -/
theorem CallsOnly.unique {p : Prog (NodeSig Cb Nud) α} {cs cs' : List (Invocation Cb Nud)}
    (h : CallsOnly cs p) (h' : CallsOnly cs' p) : cs = cs' := by
  induction p generalizing cs cs' with
  | done _ => exact Eq.trans h (Eq.symm h')
  | lock p ih => exact ih h h'
  | unlock p ih => exact ih h h'
  | op o k ih =>
      cases o with
      | call c =>
          obtain ⟨rest, rfl, hrest⟩ := h
          obtain ⟨rest', rfl, hrest'⟩ := h'
          rw [ih (none, Srci.zero) (hrest _) (hrest' _)]
      | chronStop => exact ih 0 (h 0) (h' 0)
      | die => exact absurd h id

/-! ## One request -/

/-- The record of a request for a URL, as `uhd_request_started` fills it in;
    the rest of it may be anything. -/
def withUrl (ri : Srci) (url : Bytes) : Srci :=
  { ri with url := cString url, urllen := toInt (cString url).length }

theorem toInt_lt (n : Int) : toInt n < 2 ^ 31 := by
  unfold toInt
  rw [Int.bmod_def]
  split <;> omega

/-- The length of a suffix comes out as an `int`. -/
theorem toInt_suffix (n s : Nat) :
    toInt ((toSizeT (toInt ((n + s : Nat) : Int)) : Int) - n) = toInt s := by
  unfold toInt toSizeT
  simp only [Int.bmod_def]
  split <;> split <;> split <;> omega

variable {ws : Sri Cb Nud} {ri : Srci} {chronometry : Bool}

/-- A URL that no node takes is answered 404. -/
theorem processRequest_missing (hfind : searestNodeFind ws ri.url = some none) :
    processRequest chronometry ws ri =
      .done ((some (ascii "node not found"),
        { ri with
          returnCode := httpNotFound
          returnPage := some (ascii "node not found") }), ws) := by
  rw [processRequest, hfind]
  rfl

variable {p : Nat} {n : Srn Cb Nud}

/-- A node that is disabled is not called. -/
theorem processRequest_disabled (hfind : searestNodeFind ws ri.url = some (some p))
    (hload : ws.heap[p]? = some n) (hoff : n.disabled = true) :
    processRequest chronometry ws ri =
      .done ((some (ascii "node not enabled"),
        { ri with
          returnCode := httpServiceUnavailable
          returnPage := some (ascii "node not enabled") }), ws) := by
  simp only [processRequest, hfind, hload, orDie, Prog.done_bind, hoff, if_true, Prog.pure_eq]

/-- A node that is enabled is called once, and its time is saved. -/
theorem processRequest_enabled (chronometry : Bool)
    (hfind : searestNodeFind ws ri.url = some (some p))
    (hload : ws.heap[p]? = some n) (hon : n.disabled = false) (hidle : n.dai = 0) :
    CallsOnly [⟨n.cb, ri.url.drop n.root.length,
      toInt ((toSizeT ri.urllen : Int) - n.root.length), ri, n.nud⟩]
      (processRequest chronometry ws ri) := by
  simp only [processRequest, hfind, hload, orDie, Prog.done_bind, hon, Bool.false_eq_true,
    if_false, searestNodeLen]
  refine ⟨[], rfl, fun r => ?_⟩
  cases chronometry with
  | false => exact rfl
  | true =>
      intro d
      have hslot : 0 ≤ n.slot ∧ n.slot < timeslots := by
        rw [Srn.slot, hidle]
        decide
      simp only [saveTime, searestNodeSaveTime, hload, dif_pos hslot, Option.bind_eq_bind,
        Option.bind_some]
      exact rfl

/-! ## Where a URL goes -/

/-- What the node is registered with that `process_request` goes to, and the
    rest of the URL. -/
def route (ws : Sri Cb Nud) (url : Bytes) : Option (Option (Registration Cb Nud × Bytes)) :=
  (searestNodeFind ws url).bind fun
    | none => some none
    | some p => ws.heap[p]?.map fun n =>
        some (n.entry.toRegistration, url.drop (searestNodeLen n))

variable {t : List (Entry Cb Nud)}

/-- The node that is called is the first whose root begins the URL. -/
theorem Represents.route_eq (h : Represents ws t) (url : Bytes) :
    route ws url =
      some ((Route.first Registration.root (t.map Entry.toRegistration) (cString url)).map
        fun r => (r, url.drop r.root.length)) := by
  rw [Route.first_map Registration.root Entry.toRegistration fun _ => rfl]
  show _ = some (((earliest t (cString url)).map _).map _)
  unfold route
  cases he : earliest t (cString url) with
  | none =>
      rw [h.find_none he]
      rfl
  | some e =>
      obtain ⟨p, n, hfind, hload, rfl⟩ := h.find_some he
      simp only [hfind, Option.bind_some, hload]
      rfl

/-! ## The list and the requests -/

/-- The list after some calls, and what becomes of a request then. -/
structure Dispatches (chronometry : Bool) (calls : List (ListCall Cb Nud)) (ws : Sri Cb Nud)
    (ri : Srci) : Prop where
  /-- The nodes stand in the order of their registration, are numbered from 1
      on, and their links mirror each other. -/
  listed : ∃ cs, Chain.Chained Srn.next Srn.prev ws.heap ws.nodelistHead cs ∧
    cs.map (fun c => c.2.entry.toRegistration) = registered calls ∧
    (∀ i c, cs[i]? = some c → c.2.num.toNat = i + 1) ∧
    ∀ a m b n, (a, m) ∈ cs → (b, n) ∈ cs → (m.next = some b ↔ n.prev = some a)
  count : ∃ num, searestNodeCount ws = some num ∧ num.toNat = (registered calls).length
  missing : earliest (table calls) ri.url = none →
    processRequest chronometry ws ri =
      .done ((some (ascii "node not found"),
        { ri with
          returnCode := httpNotFound
          returnPage := some (ascii "node not found") }), ws)
  disabled : ∀ e, earliest (table calls) ri.url = some e → e.disabled = true →
    processRequest chronometry ws ri =
      .done ((some (ascii "node not enabled"),
        { ri with
          returnCode := httpServiceUnavailable
          returnPage := some (ascii "node not enabled") }), ws)
  /-- One call, of the earliest node whose root the URL begins with. -/
  called : ∀ e suffix, earliest (table calls) ri.url = some e → e.disabled = false →
    ri.url = e.root ++ suffix →
    CallsOnly [⟨e.cb, suffix, suffix.length, ri, e.nud⟩] (processRequest chronometry ws ri)
  /-- The order of the registrations does not matter if no root begins with
      another. -/
  order : ∀ calls' ws', runCalls Sri.fresh calls' = some ws' →
    (registered calls').Perm (registered calls) →
    Route.PrefixFree Registration.root (registered calls) → route ws' ri.url = route ws ri.url

/-- The calls that `process_request` makes, with the length as it comes out. -/
theorem Represents.called (h : Represents ws t) (ri : Srci) (chronometry : Bool) {url : Bytes}
    {e : Entry Cb Nud} {suffix : Bytes}
    (he : earliest t (cString url) = some e) (hon : e.disabled = false)
    (hurl : cString url = e.root ++ suffix) :
    CallsOnly [⟨e.cb, suffix, toInt suffix.length, withUrl ri url, e.nud⟩]
      (processRequest chronometry ws (withUrl ri url)) := by
  have he' : earliest t (cString (withUrl ri url).url) = some e := by
    rw [withUrl, cString_cString, he]
  obtain ⟨p, n, hfind, hload, rfl⟩ := h.find_some he'
  have hcall := processRequest_enabled chronometry hfind hload hon
    (h.idle n (List.mem_of_getElem? hload))
  have hsuffix : (withUrl ri url).url.drop n.root.length = suffix := by
    show (cString url).drop n.root.length = suffix
    rw [hurl]
    exact List.drop_left
  have hlen : toInt ((toSizeT (withUrl ri url).urllen : Int) - n.root.length) =
      toInt suffix.length := by
    simp only [withUrl]
    rw [hurl, List.length_append]
    exact toInt_suffix n.root.length suffix.length
  rwa [hsuffix, hlen] at hcall

theorem Represents.order (h : Represents ws t) {ws' : Sri Cb Nud} {t' : List (Entry Cb Nud)}
    (h' : Represents ws' t')
    (hperm : (t'.map Entry.toRegistration).Perm (t.map Entry.toRegistration))
    (hfree : Route.PrefixFree Registration.root (t.map Entry.toRegistration)) (url : Bytes) :
    route ws' url = route ws url := by
  rw [h.route_eq, h'.route_eq, Route.first_perm hfree hperm]

/-- The nodes are numbered as they should be as long as there are not too many. -/
theorem Represents.numbered (h : Represents ws t) (hlt : t.length < 2 ^ 32) {i : Nat}
    {c : Nat × Srn Cb Nud} (hc : (Chain.cells ws.heap)[i]? = some c) : c.2.num.toNat = i + 1 := by
  rw [Chain.getElem?_cells] at hc
  obtain ⟨n, hn, rfl⟩ := Option.map_eq_some_iff.mp hc
  have hlen : t.length = ws.heap.length := by rw [← h.rows, List.length_map]
  have hi : i < ws.heap.length := (List.getElem?_eq_some_iff.mp hn).1
  have hnum : (ws.heap.map Srn.num)[i]? = some (UInt32.ofNat (i + 1)) := by
    rw [h.nums, List.getElem?_map, List.getElem?_range hi]
    rfl
  rw [List.getElem?_map, hn, Option.map_some, Option.some_inj] at hnum
  show n.num.toNat = i + 1
  rw [hnum, UInt32.toNat_ofNat']
  omega

theorem Represents.dispatches {calls : List (ListCall Cb Nud)} (h : Represents ws (table calls))
    (chronometry : Bool) (ri : Srci) (url : Bytes) :
    Dispatches chronometry calls ws (withUrl ri url) ↔
      (registered calls).length < 2 ^ 32 ∧
      ∀ e suffix, earliest (table calls) (cString url) = some e → e.disabled = false →
        cString url = e.root ++ suffix → suffix.length < 2 ^ 31 := by
  have hlen : (table calls).length = (registered calls).length := by
    rw [← map_table, List.length_map]
  have hcString : cString (withUrl ri url).url = (withUrl ri url).url := cString_cString url
  constructor
  · intro hd
    refine ⟨?_, ?_⟩
    · -- the number of the last node is an `unsigned int`
      obtain ⟨num, -, hnum⟩ := hd.count
      rw [← hnum]
      exact num.toNat_lt
    · intro e suffix he hon hurl
      -- the length that is handed over is an `int`
      have hcall := (hd.called e suffix he hon hurl).unique (h.called ri chronometry he hon hurl)
      simp only [List.cons.injEq, Invocation.mk.injEq, and_true, true_and] at hcall
      have hint := toInt_lt suffix.length
      omega
  · rintro ⟨hcount, hshort⟩
    constructor
    · refine ⟨Chain.cells ws.heap, h.chained, ?_, fun i c hc => h.numbered (hlen ▸ hcount) hc,
        fun a m b n hm hn => h.chained.mirrored hm hn⟩
      rw [← map_table, ← h.rows, List.map_map]
      conv => rhs; rw [← Chain.map_snd_cells ws.heap, List.map_map]
      rfl
    · refine ⟨_, h.count, ?_⟩
      rw [hlen, UInt32.toNat_ofNat', Nat.mod_eq_of_lt hcount]
    · intro hnone
      rw [← hcString] at hnone
      exact processRequest_missing (h.find_none hnone)
    · intro e he hoff
      rw [← hcString] at he
      obtain ⟨p, n, hfind, hload, rfl⟩ := h.find_some he
      exact processRequest_disabled hfind hload hoff
    · intro e suffix he hon hurl
      have hcall := h.called ri chronometry he hon hurl
      have hint : toInt suffix.length = suffix.length :=
        toInt_of_range (by omega) (by have := hshort e suffix he hon hurl; omega)
      rwa [hint] at hcall
    · intro calls' ws' hrun' hperm hfree
      obtain ⟨ws'', hrun'', h'⟩ := exists_runCalls calls'
      obtain rfl : ws'' = ws' := Option.some_inj.mp (hrun''.symm.trans hrun')
      rw [← map_table] at hperm hfree
      rw [← map_table] at hperm
      exact h.order h' hperm hfree _

/-- The list is right, and one callback is called with what is left of the
    URL, as long as the nodes and the rest of the URL can be counted. -/
theorem dispatches_iff (chronometry : Bool) (calls : List (ListCall Cb Nud)) (ri : Srci)
    (url : Bytes) :
    ∃ ws, runCalls Sri.fresh calls = some ws ∧
      (Dispatches chronometry calls ws (withUrl ri url) ↔
        (registered calls).length < 2 ^ 32 ∧
        ∀ e suffix, earliest (table calls) (cString url) = some e → e.disabled = false →
          cString url = e.root ++ suffix → suffix.length < 2 ^ 31) := by
  obtain ⟨ws, hrun, h⟩ := exists_runCalls calls
  exact ⟨ws, hrun, h.dispatches chronometry ri url⟩

/-- One node, for the keys of 128 bits. -/
def oneStore : List (ListCall Unit Unit) := [.add (some (ascii "/store/128/")) (some ()) ()]

theorem earliest_oneStore (suffix : Bytes) :
    earliest (table oneStore) (ascii "/store/128/" ++ suffix) =
      some ⟨⟨ascii "/store/128/", (), ()⟩, false⟩ := by
  have htable : table oneStore = [⟨⟨ascii "/store/128/", (), ()⟩, false⟩] := rfl
  unfold earliest
  rw [htable, Route.first, List.find?_cons_of_pos]
  simp

theorem cString_oneStore {suffix : Bytes} (h : NulFree suffix) :
    cString (ascii "/store/128/" ++ suffix) = ascii "/store/128/" ++ suffix := by
  have hroot : ∀ c ∈ ascii "/store/128/", c ≠ 0 := by decide +kernel
  refine cString_of_nulFree fun c hc => ?_
  rcases List.mem_append.mp hc with hc | hc
  · exact hroot c hc
  · exact h c hc

/-- The callback takes a URL that is longer by 2 to the 32 for one of the
    right length. -/
theorem dispatches_long_url :
    ∃ ws, runCalls Sri.fresh oneStore = some ws ∧
      CallsOnly [⟨(), List.replicate (2 ^ 32 + 32) 97, 32,
          withUrl Srci.zero (ascii "/store/128/" ++ List.replicate (2 ^ 32 + 32) 97), ()⟩]
        (processRequest false ws
          (withUrl Srci.zero (ascii "/store/128/" ++ List.replicate (2 ^ 32 + 32) 97))) ∧
      ¬ Dispatches false oneStore ws
        (withUrl Srci.zero (ascii "/store/128/" ++ List.replicate (2 ^ 32 + 32) 97)) := by
  obtain ⟨ws, hrun, h⟩ := exists_runCalls oneStore
  have hlen : (List.replicate (2 ^ 32 + 32) (97 : UInt8)).length = 2 ^ 32 + 32 :=
    List.length_replicate
  have hnul : NulFree (List.replicate (2 ^ 32 + 32) 97) := by
    intro c hc
    rw [List.eq_of_mem_replicate hc]
    decide
  generalize List.replicate (2 ^ 32 + 32) (97 : UInt8) = suffix at hlen hnul ⊢
  have hurl := cString_oneStore hnul
  have he := earliest_oneStore suffix
  rw [← hurl] at he
  refine ⟨ws, hrun, ?_, ?_⟩
  · have hcall := h.called Srci.zero false he rfl hurl
    have hint : toInt suffix.length = 32 := by
      rw [hlen]
      decide
    rwa [hint] at hcall
  · intro hd
    have hlt := ((h.dispatches false Srci.zero _).mp hd).2 _ suffix he rfl hurl
    omega

end Webstore.Nodelist
