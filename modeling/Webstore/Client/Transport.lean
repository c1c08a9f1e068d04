/-
  Webstore.Client.Transport

  A message that is sent as it is comes back as it is: its block passes the
  checks of the server, is stored and returned as the same string, and is
  decoded to the message however the response is cut.
-/
import Webstore.Client.Codec
import Webstore.Client.Flow
import Webstore.Node.Flow

namespace Webstore

open Webstore.Libc

/-- `encode_msg` sends the message as it is: compression is off, fails, or does
    not make it shorter. -/
def SentRaw (gComp : Bool) (lib : Miniz) (m : Bytes) : Prop :=
  gComp = false ∨ ∀ out, lib.compress (mzCompressBound m.length) m = .ok out →
    ¬ (out ≠ [] ∧ out.length < m.length)

/-- Such a message is sent as it is. -/
theorem payload_of_sentRaw {gComp : Bool} {lib : Miniz} {m : Bytes} (h : SentRaw gComp lib m) :
    payload gComp lib m = m := by
  unfold payload
  rcases h with rfl | h
  · rfl
  · split
    · split
      · rename_i out hout
        exact if_neg (h out hout)
      · rfl
    · rfl

/-- The alphabet of the clients lies within that of the server. -/
theorem mem_z85Alphabet {c : UInt8} (h : c ∈ Z85.base85) : c ∈ z85Alphabet := by
  have hall : ∀ c ∈ Z85.base85, c ∈ z85Alphabet := by decide +kernel
  exact hall c h

/-- What the server stores of a body it returns as the same bytes: a `SET`
    that Redis carries out is followed by a `GET` of the same string. -/
def SurvivesStore (b : Bytes) : Prop :=
  ∀ (rt : Wsrt) (hash : Bytes) (db : Db),
    (execute db (setCommand rt hash (b ++ [0]))).1 = .status (ascii "OK") →
    ∃ str, (execute (execute db (setCommand rt hash (b ++ [0]))).2 (.get (cString hash))).1 =
      .string str ∧ cString str = b

theorem exists_setCommand (rt : Wsrt) (hash datastr : Bytes) :
    ∃ ex nx, setCommand rt hash datastr = .set (cString hash) (cString datastr) ex nx := by
  unfold setCommand
  split_ifs <;> exact ⟨_, _, rfl⟩

/-- A body without NUL comes back from the store whole. -/
theorem survivesStore_of_nulFree {b : Bytes} (hb : NulFree b) : SurvivesStore b := by
  intro rt hash db hok
  obtain ⟨ex, nx, hset⟩ := exists_setCommand rt hash (b ++ [0])
  rw [cString_append_nul hb] at hset
  rw [hset] at hok ⊢
  rcases execute_set_cases db (cString hash) b ex nx with
    ⟨-, msg, hx⟩ | ⟨-, -, -, hx⟩ | ⟨hex, -, hx⟩
  · rw [hx] at hok
    cases hok
  · rw [hx] at hok
    cases hok
  · rw [hx]
    refine ⟨b, ?_, cString_of_nulFree hb⟩
    rw [execute_get_some (Expiry.Map.get_put_self _ _ (live_deadlineAfter hex))]

theorem z85Validate_block (m : Bytes) : z85Validate (Z85.block m) (Z85.block m).length = .ok 0 := by
  rw [z85Validate_eq, if_pos fun c hc => mem_z85Alphabet (Z85.block_mem hc)]

/-- The transport layer gives back what was put in. -/
theorem transport_round_trip (heap heap' : Heap) (gComp : Bool) (lib : Miniz) {m : Bytes}
    (hm : m ≠ []) (hlen : m.length < 2 ^ 61) (hraw : SentRaw gComp lib m) :
    ∃ block,
      encodeMsg heap gComp lib m m.length = .ok (some (block ++ [0])) ∧
      block.length = Z85.encodeWithPaddingBound m.length ∧
      NulFree block ∧
      5 ≤ block.length ∧ z85Validate block block.length = .ok 0 ∧
      SurvivesStore block ∧
      ∀ ptrs : List Bytes, ptrs.flatten = block →
        ∃ r, collect CurlResp.zero ptrs = .ok r ∧
          decodeMsg heap' r.page r.bytecount = .ok (some (m ++ [0], m.length)) := by
  have hpos : 0 < m.length := List.length_pos_iff.mpr hm
  have hlength := Z85.length_block hm
  refine ⟨Z85.block m, ?_, ?_, Z85.nulFree_block m, by omega, z85Validate_block m,
    survivesStore_of_nulFree (Z85.nulFree_block m), ?_⟩
  · rw [encodeMsg_eq heap gComp lib hm, payload_of_sentRaw hraw, if_pos (by omega)]
  · exact (Z85.encodeWithPaddingBound_eq hm (by omega)).symm
  · intro ptrs hptrs
    -- a block is not empty, so that at least one piece arrives
    have hne : ptrs ≠ [] := by
      rintro rfl
      rw [List.flatten_nil] at hptrs
      rw [← hptrs] at hlength
      simp at hlength
      omega
    refine ⟨_, collect_eq hne, ?_⟩
    rw [hptrs, decodeMsg_block heap' hm, if_pos (by omega)]

theorem transport_round_trip_text :
    ∃ block,
      encodeMsg Heap.blank false runLength (ascii "webstore") 8 = .ok (some (block ++ [0])) ∧
      block.length = Z85.encodeWithPaddingBound 8 ∧
      NulFree block ∧
      5 ≤ block.length ∧ z85Validate block block.length = .ok 0 ∧
      SurvivesStore block ∧
      ∀ ptrs : List Bytes, ptrs.flatten = block →
        ∃ r, collect CurlResp.zero ptrs = .ok r ∧
          decodeMsg Heap.blank r.page r.bytecount = .ok (some (ascii "webstore" ++ [0], 8)) :=
  transport_round_trip Heap.blank Heap.blank false runLength (m := ascii "webstore") (by decide)
    (by decide) (.inl rfl)

end Webstore
