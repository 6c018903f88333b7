import Esp32WebServers.Base.Frames
import Esp32WebServers.System.Link

/-!
# Responses read by their content length

Every server sends a `Content-Length` header, and no client of the repository reads it: a
benchmark session takes what one read returns for a response, and that may be a part of it or
more than one of them. A reader that goes by the header takes the responses of every server
apart, however they are cut and merged on the way.
-/

namespace Esp32WebServers

open Base

/-- The body behind the first blank line, of the length that the lines in front of it tell, and
what follows it. -/
def readContent (text : Bytes) : Option (Bytes × Bytes) :=
  (indexOf? (crlf ++ crlf) text).bind fun i ↦
    (contentLength? (text.take (i + 2))).bind fun n ↦
      if n ≤ (text.drop (i + 4)).length then
        some ((text.drop (i + 4)).take n, (text.drop (i + 4)).drop n)
      else none

/-- What is read is the blank line's position, the content length, and the bytes behind. -/
theorem readContent_eq_some_iff {text body rest : Bytes} :
    readContent text = some (body, rest) ↔
      ∃ i, indexOf? (crlf ++ crlf) text = some i ∧
        contentLength? (text.take (i + 2)) = some body.length ∧
        text.drop (i + 4) = body ++ rest := by
  simp only [readContent, Option.bind_eq_some_iff, Option.ite_none_right_eq_some,
    Option.some.injEq, Prod.mk.injEq]
  constructor
  · rintro ⟨i, hi, n, hn, hle, rfl, rfl⟩
    refine ⟨i, hi, ?_, (List.take_append_drop _ _).symm⟩
    rw [List.length_take, Nat.min_eq_left hle]
    exact hn
  · rintro ⟨i, hi, hn, hdrop⟩
    refine ⟨i, hi, body.length, hn, ?_, ?_, ?_⟩
    · rw [hdrop, List.length_append]
      exact Nat.le_add_right _ _
    · rw [hdrop, List.take_left]
    · rw [hdrop, List.drop_left]

private theorem blank_le {text : Bytes} {i : Nat} (h : indexOf? (crlf ++ crlf) text = some i) :
    i + 4 ≤ text.length :=
  indexOf?_add_length_le h

/-- The reader by the content length takes one message. -/
def contentFrame : Frame UInt8 Bytes where
  read := readContent
  shorter := by
    intro text body rest h
    obtain ⟨i, hi, -, hdrop⟩ := readContent_eq_some_iff.mp h
    have hle := blank_le hi
    have hlength := congrArg List.length hdrop
    rw [List.length_drop, List.length_append] at hlength
    omega
  stable := by
    intro text body rest more h
    obtain ⟨i, hi, hn, hdrop⟩ := readContent_eq_some_iff.mp h
    have hle := blank_le hi
    refine readContent_eq_some_iff.mpr ⟨i, indexOf?_append_left more hi, ?_, ?_⟩
    · rw [List.take_append_of_le_length (by omega)]
      exact hn
    · rw [List.drop_append_of_le_length hle, hdrop, List.append_assoc]

private theorem contentFrame_read (text : Bytes) : contentFrame.read text = readContent text := rfl

/-- A response is one message, and its body is what is read. -/
theorem contentFrame_reads : contentFrame.Reads responseText heapBody := by
  intro heap
  rw [contentFrame_read, readContent_eq_some_iff]
  have hbody := body?_responseText heap
  rw [body?, Option.map_eq_some_iff] at hbody
  obtain ⟨i, hi, hdrop⟩ := hbody
  -- The blank line begins with the end of the last header line.
  have hfront {front : Bytes} (h : responseText heap = front ++ (crlf ++ heapBody heap)) :
      front.length = i + 2 := by
    have hle := blank_le hi
    have hcrlf : crlf.length = 2 := rfl
    have hwhole := congrArg List.length h
    have hbehind := congrArg List.length hdrop
    rw [List.length_append, List.length_append, hcrlf] at hwhole
    rw [List.length_drop] at hbehind
    omega
  have hsplit : responseText heap =
      (statusLines ++ (ascii "Content-Length: " ++ (decimal (heapBody heap).length ++ crlf))) ++
        (crlf ++ heapBody heap) := by
    simp only [responseText, List.append_assoc]
  refine ⟨i, hi, ?_, ?_⟩
  · rw [hsplit, List.take_left' (hfront hsplit)]
    exact contentLength?_head _
  · rw [hdrop, List.append_nil]

/-- The client finds the heap value in the body alone. -/
theorem Benchmark.parsResult_heapBody (heap : Nat) :
    Benchmark.parsResult (heapBody heap) = some (decimal heap) := by
  have hkey : ascii "free_heap=" <+: heapBody heap := List.prefix_append _ _
  obtain ⟨i, honly, hbehind⟩ := occursOnlyAt_key heap
  have hbody := body?_responseText heap
  rw [body?, Option.map_eq_some_iff] at hbody
  obtain ⟨k, -, hdrop⟩ := hbody
  -- The only key of the response is the one that its body begins with.
  have hat : k + 4 = i := (honly _).mp (hdrop ▸ hkey)
  have hbodyOnly : OccursOnlyAt (ascii "free_heap=") (heapBody heap) 0 := by
    intro j
    rw [← hdrop, List.drop_drop, honly]
    omega
  have hafter : (heapBody heap).drop (0 + (ascii "free_heap=").length) =
      decimal heap ++ ascii ";" := by
    rw [Nat.zero_add, heapBody, List.drop_left]
  rw [← Benchmark.parsResult_responseText heap, Benchmark.parsResult, Benchmark.parsResult,
    Benchmark.resultPattern, search_lits_of_occursOnlyAt hbodyOnly,
    search_lits_of_occursOnlyAt honly, hafter, hbehind]

/-- Whatever heap values are written, and however the bytes of the responses arrive, a reader by
the content length has the values of exactly the responses that have arrived as a whole; what it
holds back is a proper part of the next one. -/
def Framed (respond : UInt32 → Bytes) : Prop :=
  ∀ (heaps : List FreeHeap) (pieces : List Bytes) (rest : Bytes),
    pieces.flatten ++ rest = heaps.flatMap (fun heap ↦ respond heap.val) →
      ∃ n part bodies, pieces.foldl contentFrame.feed ([], []) = (bodies, part) ∧
        bodies.map Benchmark.parsResult =
          (heaps.take n).map (fun heap ↦ some (decimal heap.val.toNat)) ∧
        part ++ rest = (heaps.drop n).flatMap (fun heap ↦ respond heap.val) ∧
        (part ≠ [] → ∃ heap tail, heaps[n]? = some heap ∧ part ++ tail = respond heap.val ∧
          tail ≠ [])

/-- The format is all that matters. -/
theorem framed_of_formats {respond : UInt32 → Bytes}
    (h : ∀ heap : FreeHeap, respond heap.val = responseText heap.val.toNat) : Framed respond := by
  intro heaps pieces rest hpieces
  have hreads : contentFrame.Reads (fun heap : FreeHeap ↦ respond heap.val)
      (fun heap ↦ heapBody heap.val.toNat) := by
    intro heap
    have hread := contentFrame_reads heap.val.toNat
    rw [← h] at hread
    exact hread
  obtain ⟨n, part, hfeed, hrest, hpart⟩ := hreads.foldl_feed hpieces
  refine ⟨n, part, _, hfeed, ?_, hrest, hpart⟩
  rw [List.map_map]
  exact List.map_congr_left fun heap _ ↦ Benchmark.parsResult_heapBody _

/-- The responses of all six servers can be told apart by their content length. -/
theorem framed_servers :
    Framed CBsd.response ∧ Framed CNetconn.response ∧ Framed CppAsio.response ∧
      Framed Rust.getResponseMessage ∧ Framed (fun heap ↦ Python.sendResponse heap.toNat) ∧
      Framed (fun heap ↦ Lua.response heap.toNat) := by
  refine ⟨?_, ?_, ?_, ?_, ?_, ?_⟩
  · exact framed_of_formats fun heap ↦ CBsd.response_eq heap.lt
  · exact framed_of_formats fun heap ↦ CBsd.response_eq heap.lt
  · exact framed_of_formats fun heap ↦ CppAsio.response_eq heap.lt
  · exact framed_of_formats fun heap ↦ Rust.getResponseMessage_eq heap.val
  · exact framed_of_formats fun heap ↦ Python.sendResponse_eq heap.val.toNat
  · exact framed_of_formats fun heap ↦ Lua.response_eq heap.val.toNat

end Esp32WebServers
