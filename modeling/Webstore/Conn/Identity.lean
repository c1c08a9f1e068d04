/-
  Webstore.Conn.Identity

  Whether clients are told apart by where they come from.  IPv4 addresses are
  printed as they are; of an IPv6 address the flow label is printed in front
  and the last four bytes are not, so that clients that differ in these only
  share their counter, and one client has as many as it uses flow labels.
-/
import Webstore.Conn.Rule
import Webstore.Sockaddr.Ntop

namespace Webstore

open Webstore.Libc Webstore.Sched

/-! ## Counters -/

/-- A check asks for the counter of its own address only. -/
theorem confined_checkSection (rt : Wsrt) (ip : Bytes) :
    Confined (ipKey ip) (checkSection rt ip) := by
  have hsave : ∀ found, Confined (ipKey ip) (saveStep rt ip found) := by
    intro found
    refine ⟨by cases found <;> rfl, fun v => ?_⟩
    cases v <;> exact confined_leave _ _
  refine ⟨rfl, fun v => ?_⟩
  -- no reply, then the kinds of a reply: string, nil, status, integer, error
  rcases v with - | (str | - | str | n | str)
  · exact confined_leave _ _
  · show Confined (ipKey ip)
      (if atoi (cString str) < rt.reqcount then saveStep rt ip true else leave rt srIpDeny)
    split
    · exact hsave true
    · exact confined_leave _ _
  · exact hsave false
  · exact confined_leave _ _
  · exact confined_leave _ _
  · exact confined_leave _ _

/-- A check is about the counter of its address; localhost has none. -/
theorem issues_wsAddrCheck (rt : Wsrt) (ip k : Bytes) :
    Issues k (wsAddrCheck rt ip) ↔ cString ip ≠ localhost ∧ k = ipKey ip := by
  rw [wsAddrCheck_eq]
  by_cases hlocal : cString ip = localhost
  · rw [if_pos hlocal]
    constructor
    · intro h
      cases h
    · exact fun h => absurd hlocal h.1
  · rw [if_neg hlocal]
    have hfirst : Issues (ipKey ip) (checkSection rt ip) := .here rfl
    constructor
    · intro h
      refine ⟨hlocal, (confined_checkSection rt ip).issues ?_⟩
      split at h
      · cases h with
        | lock h => exact h
      · exact h
    · rintro ⟨-, rfl⟩
      split
      · exact .lock hfirst
      · exact hfirst

/-- Addresses that have the same counter, or none, are the same. -/
theorem same_counter_iff (rt : Wsrt) {ip ip' : Bytes} (h : NulFree ip) (h' : NulFree ip') :
    (∀ k, Issues k (wsAddrCheck rt ip) ↔ Issues k (wsAddrCheck rt ip')) ↔ ip = ip' := by
  constructor
  · intro hk
    simp only [issues_wsAddrCheck, cString_of_nulFree h, cString_of_nulFree h'] at hk
    by_cases hlocal : ip = localhost
    · -- then the other one has no counter either
      by_contra hne
      have hother : ip' ≠ localhost := fun hl => hne (hlocal.trans hl.symm)
      exact ((hk (ipKey ip')).mpr ⟨hother, rfl⟩).1 hlocal
    · have hkey : ipKey ip = ipKey ip' := ((hk (ipKey ip)).mp ⟨hlocal, rfl⟩).2
      have hc : cString ip = cString ip' := List.append_cancel_left hkey
      rwa [cString_of_nulFree h, cString_of_nulFree h'] at hc
  · rintro rfl
    exact fun k => Iff.rfl

/-! ## Log lines -/

/-- A line about a request: the client, a blank and the rest. -/
def logLine (ip rest : Bytes) : Bytes := ip ++ 32 :: rest

/-- The client of a line. -/
def lineClient (line : Bytes) : Bytes := line.takeWhile (· ≠ 32)

theorem lineClient_logLine {ip : Bytes} (h : ∀ c ∈ ip, c ≠ 32) (rest : Bytes) :
    lineClient (logLine ip rest) = ip := by
  unfold lineClient logLine
  rw [List.takeWhile_append_of_pos fun c hc => by simpa using h c hc]
  simp

/-! ## Pairs of connections -/

/-- What the program makes of two connections tells whether they come from the
    same IP address. -/
structure IdentityFaithful (ntop : Family → Bytes → Bytes) (rt : Wsrt) (c c' : Sockaddr) :
    Prop where
  /-- What `uhd_client_connect` passes to `addr_cb`. -/
  passed : ∀ stack stack', ∃ ip ip',
    (∀ addrCb, uhdClientConnect ntop stack (some addrCb) (some c.bytes) = addrCb ip) ∧
    (∀ addrCb, uhdClientConnect ntop stack' (some addrCb) (some c'.bytes) = addrCb ip') ∧
    (ip = ip' ↔ c.ip = c'.ip)
  /-- What `client_ip_str` records. -/
  recorded : ∀ stack stack', ∃ ip ip',
    clientIpStr ntop stack (some (some c.bytes)) = .ok (some ip) ∧
    clientIpStr ntop stack' (some (some c'.bytes)) = .ok (some ip') ∧
    (ip = ip' ↔ c.ip = c'.ip)
  /-- The counters that `ws_addr_check` looks at. -/
  counters : ∀ stack stack',
    (∀ k, Issues k (uhdClientConnect ntop stack (some (wsAddrCheck rt)) (some c.bytes)) ↔
      Issues k (uhdClientConnect ntop stack' (some (wsAddrCheck rt)) (some c'.bytes))) ↔
    c.ip = c'.ip
  /-- The clients of their lines in the log. -/
  lines : ∀ stack stack' ip ip' rest rest',
    clientIpStr ntop stack (some (some c.bytes)) = .ok (some ip) →
    clientIpStr ntop stack' (some (some c'.bytes)) = .ok (some ip') →
    (lineClient (logLine ip rest) = lineClient (logLine ip' rest') ↔ c.ip = c'.ip)

/-- IPv6 addresses with the same flow label and the same first twelve bytes, or
    one address with different flow labels. -/
def Confused : Sockaddr → Sockaddr → Prop
  | .in6 a, .in6 b =>
      (a.flowinfo = b.flowinfo ∧ a.addr.toList.take 12 = b.addr.toList.take 12 ∧
        a.addr ≠ b.addr) ∨
      (a.addr = b.addr ∧ a.flowinfo ≠ b.flowinfo)
  | _, _ => False

/-- The bytes behind the port tell what the IP addresses tell, except then. -/
theorem seen_eq_iff (c c' : Sockaddr) : (c.seen = c'.seen ↔ c.ip = c'.ip) ↔ ¬ Confused c c' := by
  cases c with
  | in4 a =>
      cases c' with
      | in4 b => exact iff_of_true Iff.rfl id
      | in6 b =>
          refine iff_of_true ?_ id
          simp [Sockaddr.seen, Sockaddr.ip]
  | in6 a =>
      cases c' with
      | in4 b =>
          refine iff_of_true ?_ id
          simp [Sockaddr.seen, Sockaddr.ip]
      | in6 b =>
          -- two IPv6 addresses: only the flow label and twelve bytes are looked at
          have hseen : Sockaddr.seen (.in6 a) = Sockaddr.seen (.in6 b) ↔
              a.flowinfo = b.flowinfo ∧ a.addr.toList.take 12 = b.addr.toList.take 12 := by
            have hlen : a.flowinfo.toList.length = b.flowinfo.toList.length := by simp
            simp only [Sockaddr.seen, Prod.mk.injEq, true_and]
            constructor
            · intro heq
              obtain ⟨hflow, haddr⟩ := List.append_inj heq hlen
              exact ⟨Vector.toList_inj.mp hflow, haddr⟩
            · rintro ⟨hflow, haddr⟩
              rw [hflow, haddr]
          have hip : Sockaddr.ip (.in6 a) = Sockaddr.ip (.in6 b) ↔ a.addr = b.addr := by
            simp only [Sockaddr.ip, Prod.mk.injEq, true_and, Vector.toList_inj]
          rw [hseen, hip]
          show _ ↔ ¬ ((_ ∧ _ ∧ _) ∨ (_ ∧ _))
          by_cases haddr : a.addr = b.addr
          · simp [haddr]
          · simp [haddr]

variable {ntop : Family → Bytes → Bytes}

/-- The texts are the same if and only if the bytes behind the port are. -/
theorem Documented.text_eq_iff (h : Documented ntop) (c c' : Sockaddr) :
    c.text ntop = c'.text ntop ↔ c.seen = c'.seen := by
  constructor
  · intro heq
    unfold Sockaddr.text at heq
    have hfamily : c.seen.1 = c'.seen.1 := by
      have hcolon := h.colon c.seen.1 c.seen.2 c.length_seen
      rw [heq, h.colon c'.seen.1 c'.seen.2 c'.length_seen] at hcolon
      cases hc : c.seen.1 <;> cases hc' : c'.seen.1 <;> simp [hc, hc'] at hcolon ⊢
    have hlen : c'.seen.2.length = c.seen.1.addrLen := hfamily ▸ c'.length_seen
    rw [← hfamily] at heq
    exact Prod.ext hfamily (h.injective _ _ _ c.length_seen hlen heq)
  · intro heq
    rw [Sockaddr.text, heq, Sockaddr.text]

/-- Both ways of telling clients apart compare the same texts. -/
theorem IdentityFaithful.text_iff (h : Documented ntop) {rt : Wsrt} {c c' : Sockaddr}
    (hf : IdentityFaithful ntop rt c c') : c.text ntop = c'.text ntop ↔ c.ip = c'.ip := by
  obtain ⟨ip, ip', hip, hip', hiff⟩ := hf.recorded (Vector.replicate 128 0) (Vector.replicate 128 0)
  rw [h.clientIpStr_eq, Except.ok.injEq, Option.some_inj] at hip hip'
  rw [hip, hip']
  exact hiff

/-- Clients are told apart unless one of the two kinds of pairs is there. -/
theorem identityFaithful_iff (h : Documented ntop) (rt : Wsrt) (c c' : Sockaddr) :
    IdentityFaithful ntop rt c c' ↔ ¬ Confused c c' := by
  rw [← seen_eq_iff, ← h.text_eq_iff]
  have hgraph : ∀ c : Sockaddr, ∀ x ∈ c.text ntop, x ≠ 0 ∧ x ≠ 32 :=
    fun c => h.graph c.seen.1 c.seen.2 c.length_seen
  have hnul : ∀ c : Sockaddr, NulFree (c.text ntop) := fun c x hx => (hgraph c x hx).1
  constructor
  · exact fun hf => hf.text_iff h
  · intro hiff
    constructor
    · intro stack stack'
      exact ⟨_, _, fun cb => h.uhdClientConnect_eq stack cb c,
        fun cb => h.uhdClientConnect_eq stack' cb c', hiff⟩
    · intro stack stack'
      exact ⟨_, _, h.clientIpStr_eq stack c, h.clientIpStr_eq stack' c', hiff⟩
    · intro stack stack'
      rw [← hiff, ← same_counter_iff rt (hnul c) (hnul c')]
      simp only [h.uhdClientConnect_eq]
    · intro stack stack' ip ip' rest rest' hip hip'
      rw [h.clientIpStr_eq, Except.ok.injEq, Option.some_inj] at hip hip'
      subst hip hip'
      rw [lineClient_logLine fun x hx => (hgraph c x hx).2,
        lineClient_logLine fun x hx => (hgraph c' x hx).2]
      exact hiff

/-! ## Clients -/

/-- An address of 2001:db8:1:2:3:4::/96 with flow label abcde. -/
def labelledClient (port : Vector UInt8 2) (a b c d : UInt8) : Sockaddr :=
  .in6 ⟨port, #v[0, 10, 188, 222], #v[32, 1, 13, 184, 0, 1, 0, 2, 0, 3, 0, 4, a, b, c, d],
    Vector.replicate 4 0⟩

def limitedRt : Wsrt := ⟨true, 60, 5, 0, 0, false, false⟩

/-- 2001:db8:1:2:3:5:5:6, with the same flow label. -/
def neighbourClient : Sockaddr :=
  .in6 ⟨#v[156, 64], #v[0, 10, 188, 222], #v[32, 1, 13, 184, 0, 1, 0, 2, 0, 3, 0, 5, 0, 5, 0, 6],
    Vector.replicate 4 0⟩

theorem identityFaithful_documentation :
    IdentityFaithful plainNtop limitedRt (labelledClient #v[156, 64] 0 5 0 6) neighbourClient := by
  have happart : ¬ Confused (labelledClient #v[156, 64] 0 5 0 6) neighbourClient := by
    unfold Confused labelledClient neighbourClient
    decide
  exact (identityFaithful_iff documented_plainNtop limitedRt _ _).mpr happart

/-- 2001:db8:1:2:3:4:5:6 and 2001:db8:1:2:3:4:7:8 are one client. -/
theorem confused_clients :
    Documented plainNtop ∧
    (labelledClient #v[156, 64] 0 5 0 6).ip ≠ (labelledClient #v[156, 65] 0 7 0 8).ip ∧
    (∀ stack, clientIpStr plainNtop stack (some (some (labelledClient #v[156, 64] 0 5 0 6).bytes)) =
      .ok (some (ascii "a:bcde:2001:db8:1:2:3:4"))) ∧
    (∀ stack, clientIpStr plainNtop stack (some (some (labelledClient #v[156, 65] 0 7 0 8).bytes)) =
      .ok (some (ascii "a:bcde:2001:db8:1:2:3:4"))) ∧
    ¬ IdentityFaithful plainNtop limitedRt (labelledClient #v[156, 64] 0 5 0 6)
      (labelledClient #v[156, 65] 0 7 0 8) := by
  have hip : (labelledClient #v[156, 64] 0 5 0 6).ip ≠ (labelledClient #v[156, 65] 0 7 0 8).ip := by
    decide
  have htext : (labelledClient #v[156, 64] 0 5 0 6).text plainNtop =
      ascii "a:bcde:2001:db8:1:2:3:4" := by decide
  have htext' : (labelledClient #v[156, 65] 0 7 0 8).text plainNtop =
      ascii "a:bcde:2001:db8:1:2:3:4" := by decide
  refine ⟨documented_plainNtop, hip, ?_, ?_, ?_⟩
  · intro stack
    rw [documented_plainNtop.clientIpStr_eq, htext]
  · intro stack
    rw [documented_plainNtop.clientIpStr_eq, htext']
  · intro hf
    exact hip ((hf.text_iff documented_plainNtop).mp (htext.trans htext'.symm))

end Webstore
