import RemoteEval.Proofs.Framing.Chunks

/-!
Reading a stream to its end. What is left over in the buffer when the stream has ended becomes
responses too; then the stream has ended for good.
-/
namespace RemoteEval.Framing.Decoder

def readToEnd (d : Decoder) (pieces : List (List UInt8)) : List Response :=
  d.drain.1 ++ (d.drain.2.readAll pieces).1 ++ (d.drain.2.readAll pieces).2.drainAtEnd.1

theorem drainAtEnd_of_none {d e : Decoder} (h : d.nextAtEnd = (none, e)) :
    d.drainAtEnd = ([], e) := by
  rw [drainAtEnd]
  split
  · next hnext => cases h.symm.trans hnext; rfl
  · next hnext => cases h.symm.trans hnext

theorem drainAtEnd_of_some {d e : Decoder} {r : Response} (h : d.nextAtEnd = (some r, e)) :
    d.drainAtEnd = (r :: e.drainAtEnd.1, e.drainAtEnd.2) := by
  rw [drainAtEnd]
  split
  · next hnext => cases h.symm.trans hnext
  · next hnext => cases h.symm.trans hnext; rfl

/-- When the stream has ended it stays so. -/
theorem nextAtEnd_again {d e : Decoder} (h : d.nextAtEnd = (none, e)) :
    e.nextAtEnd = (none, e) := by
  unfold nextAtEnd at h
  split at h
  · cases h
  · next hnext =>
    split at h
    · next hempty =>
      cases h
      unfold nextAtEnd
      simp only [next_again hnext, hempty, if_true]
    · cases h

theorem nextAtEnd_of_some {d e : Decoder} {r : Response} (h : d.next = (some r, e)) :
    d.nextAtEnd = (some r, e) := by
  unfold nextAtEnd
  rw [h]

theorem nextAtEnd_congr {d e : Decoder} (h : d.next = e.next) : d.nextAtEnd = e.nextAtEnd := by
  unfold nextAtEnd
  rw [h]

theorem drainAtEnd_congr {d e : Decoder} (h : d.nextAtEnd = e.nextAtEnd) :
    d.drainAtEnd = e.drainAtEnd := by
  cases hnext : e.nextAtEnd with
  | mk response f =>
    rw [hnext] at h
    cases response with
    | none => rw [drainAtEnd_of_none h, drainAtEnd_of_none hnext]
    | some r => rw [drainAtEnd_of_some h, drainAtEnd_of_some hnext]

/-- Responses that are taken out before the stream has ended come first; no others change. -/
theorem drainAtEnd_drain (d : Decoder) :
    d.drainAtEnd = (d.drain.1 ++ d.drain.2.drainAtEnd.1, d.drain.2.drainAtEnd.2) := by
  induction hsize : d.buffer.length using Nat.strong_induction_on generalizing d with
  | h size ih =>
    cases hnext : d.next with
    | mk response e =>
      cases response with
      | none =>
        have hagain : d.next = e.next := hnext.trans (next_again hnext).symm
        rw [drain_of_none hnext, drainAtEnd_congr (nextAtEnd_congr hagain)]
        rfl
      | some r =>
        rw [drain_of_some hnext, drainAtEnd_of_some (nextAtEnd_of_some hnext),
          ih e.buffer.length (hsize ▸ next_length_lt hnext) e rfl]
        rfl

theorem readToEnd_of_some {d e : Decoder} {r : Response} (h : d.next = (some r, e))
    (pieces : List (List UInt8)) : d.readToEnd pieces = r :: e.readToEnd pieces := by
  unfold readToEnd
  rw [drain_of_some h]
  rfl

theorem readToEnd_of_none {d e : Decoder} (h : d.next = (none, e))
    (pieces : List (List UInt8)) : d.readToEnd pieces = e.readToEnd pieces := by
  unfold readToEnd
  rw [drain_of_none h, drain_of_none (next_again h)]

theorem readToEnd_nil {d : Decoder} (h : d.next = (none, d)) :
    d.readToEnd [] = d.drainAtEnd.1 := by
  unfold readToEnd
  rw [drain_of_none h]
  rfl

theorem readToEnd_cons {d : Decoder} (h : d.next = (none, d)) (piece : List UInt8)
    (pieces : List (List UInt8)) :
    d.readToEnd (piece :: pieces) = (d.feed piece).readToEnd pieces := by
  unfold readToEnd
  rw [drain_of_none h, readAll_cons, List.nil_append]

/-- What is left over when no whole response is buffered is for no request. -/
theorem id?_of_readToEnd_nil {d : Decoder} (h : d.next = (none, d)) {response : Response}
    (hresponse : response ∈ d.readToEnd []) : response.id? = none := by
  rw [readToEnd_nil h] at hresponse
  cases hnext : d.nextAtEnd with
  | mk found e =>
    cases found with
    | none =>
      rw [drainAtEnd_of_none hnext] at hresponse
      cases hresponse
    | some r =>
      rw [drainAtEnd_of_some hnext] at hresponse
      unfold nextAtEnd at hnext
      simp only [h] at hnext
      split at hnext
      · cases hnext
      · cases hnext
        have hempty : nextAtEnd { d with buffer := [], scan := {} } =
            (none, { d with buffer := [], scan := {} }) := by
          cases d.discarding <;> simp [nextAtEnd, next, nextKept, Scan.isIdle]
        rw [drainAtEnd_of_none hempty] at hresponse
        cases List.mem_singleton.1 hresponse
        rfl

end RemoteEval.Framing.Decoder
