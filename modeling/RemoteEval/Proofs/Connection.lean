import RemoteEval.Connection
import RemoteEval.Proofs.Framing.Ending

/-!
What a connection will still give. All that has come in and will come in is decoded piece by
piece, the rest of the buffer at the end of the stream; receiving takes the first response off
that list, or leaves the list as it is. So nothing is lost, added or moved, whenever and however
often something is received.
-/
namespace RemoteEval

def Receipt.responses : Receipt → List Response
  | .response r => [r]
  | _ => []

namespace Connection

open Framing.Decoder

/-- What a connection will give until the end of its stream, if certain pieces still come in. -/
def rest (c : Connection) (later : List (List UInt8)) : List Response :=
  if c.atEnd then c.decoder.drainAtEnd.1 else c.decoder.readToEnd (c.unread ++ later)

theorem rest_of_atEnd {c : Connection} (h : c.atEnd = true) (later : List (List UInt8)) :
    c.rest later = c.decoder.drainAtEnd.1 := if_pos h

theorem rest_of_open {c : Connection} (h : c.atEnd = false) (later : List (List UInt8)) :
    c.rest later = c.decoder.readToEnd (c.unread ++ later) := if_neg (by simp [h])

structure SameInput (c d : Connection) : Prop where
  decoder_eq : c.decoder = d.decoder
  unread_eq : c.unread = d.unread
  outputClosed_eq : c.outputClosed = d.outputClosed
  atEnd_eq : c.atEnd = d.atEnd

theorem SameInput.rest_eq {c d : Connection} (h : c.SameInput d) (later : List (List UInt8)) :
    c.rest later = d.rest later := by
  rw [rest, rest, h.decoder_eq, h.unread_eq, h.atEnd_eq]

structure Receives (c : Connection) (later : List (List UInt8)) (receipt : Receipt)
    (d : Connection) : Prop where
  rest_eq : c.rest later = receipt.responses ++ d.rest later
  ended : receipt = .ended → d.rest later = []
  outputClosed_eq : d.outputClosed = c.outputClosed

theorem receiveRest_receives {c d : Connection} {receipt : Receipt} (h : c.atEnd = true)
    (hreceive : c.receiveRest = (receipt, d)) (later : List (List UInt8)) :
    c.Receives later receipt d := by
  have hrest := rest_of_atEnd h later
  unfold receiveRest at hreceive
  split at hreceive
  · next r e hnext =>
    cases hreceive
    refine ⟨?_, (by rintro ⟨⟩), rfl⟩
    rw [hrest, drainAtEnd_of_some hnext, rest_of_atEnd (c := { c with decoder := e }) h]
    rfl
  · next e hnext =>
    cases hreceive
    have hdone : Connection.rest { c with decoder := e } later = [] := by
      rw [rest_of_atEnd (c := { c with decoder := e }) h]
      exact congrArg Prod.fst (drainAtEnd_of_none (nextAtEnd_again hnext))
    refine ⟨?_, fun _ => hdone, rfl⟩
    rw [hrest, drainAtEnd_of_none hnext, hdone]
    rfl

theorem receivePieces_receives {c d : Connection} {receipt : Receipt} {later : List (List UInt8)}
    (h : c.atEnd = false) (hlater : c.outputClosed = true → later = [])
    {pieces : List (List UInt8)} (hreceive : c.receivePieces pieces = (receipt, d)) :
    Receives { c with unread := pieces } later receipt d := by
  have hopen : ∀ decoder unread, Connection.rest { c with decoder, unread } later =
      decoder.readToEnd (unread ++ later) := by
    intro decoder unread
    exact rest_of_open (c := { c with decoder, unread }) h later
  induction pieces generalizing c with
  | nil =>
    unfold receivePieces at hreceive
    split at hreceive
    · next r e hnext =>
      cases hreceive
      refine ⟨?_, (by rintro ⟨⟩), rfl⟩
      rw [hopen, hopen, readToEnd_of_some hnext]
      rfl
    · next e hnext =>
      have hkept : Connection.rest { c with unread := [] } later =
          Connection.rest { c with decoder := e, unread := [] } later := by
        rw [hopen, hopen, readToEnd_of_none hnext]
      split at hreceive
      · cases hreceive
        exact ⟨hkept, (by rintro ⟨⟩), rfl⟩
      · split at hreceive
        · next hclosed =>
          have hreceives := receiveRest_receives rfl hreceive later
          refine ⟨?_, hreceives.ended, hreceives.outputClosed_eq⟩
          rw [← hreceives.rest_eq, hkept, hopen, rest_of_atEnd rfl, hlater hclosed]
          exact readToEnd_nil (next_again hnext)
        · cases hreceive
          exact ⟨hkept, (by rintro ⟨⟩), rfl⟩
  | cons piece pieces ih =>
    unfold receivePieces at hreceive
    split at hreceive
    · next r e hnext =>
      cases hreceive
      refine ⟨?_, (by rintro ⟨⟩), rfl⟩
      rw [hopen, hopen, readToEnd_of_some hnext]
      rfl
    · next e hnext =>
      have hfed := ih (c := { c with decoder := e.feed piece }) h hlater hreceive hopen
      refine ⟨?_, hfed.ended, hfed.outputClosed_eq⟩
      rw [← hfed.rest_eq, hopen, hopen, readToEnd_of_none hnext]
      exact readToEnd_cons (next_again hnext) piece _

/-- Receiving takes what it gives off what the connection will still give, if nothing comes in
after the remote end has closed its output. -/
theorem receive_receives (c : Connection) {later : List (List UInt8)}
    (hlater : c.outputClosed = true → later = []) :
    c.Receives later c.receive.1 c.receive.2 := by
  unfold receive
  by_cases h : c.atEnd = true
  · rw [if_pos h]
    exact receiveRest_receives h rfl later
  · rw [if_neg h]
    exact receivePieces_receives (Bool.eq_false_iff.2 h) hlater rfl

structure Live (c : Connection) : Prop where
  output_open : c.outputClosed = false
  not_atEnd : c.atEnd = false
  readable : c.readFault = none

/-- Writing does not end it. -/
theorem Live.write {c d : Connection} (h : c.Live) {bytes written : List UInt8}
    {fault : Option Fault} (hwrite : c.write bytes = (written, fault, d)) : d.Live := by
  unfold Connection.write at hwrite
  split at hwrite
  · cases hwrite
    exact h
  · split at hwrite <;>
    · cases hwrite
      exact ⟨h.output_open, h.not_atEnd, h.readable⟩

/-- Of what has come in, no response for a request is left. -/
def Spent (c : Connection) : Prop := ∀ response ∈ c.rest [], response.id? = none

/-- What a connection has left when it has given so much. -/
inductive Gives (c d : Connection) : Receipt → Prop where
  | response (response : Response) (hless : d.pending < c.pending) (hlive : c.Live → d.Live) :
      Gives c d (.response response)
  | waiting (hread : d.unread = []) (hopen : d.outputClosed = false) (hspent : d.Spent)
      (hlive : c.Live → d.Live) : Gives c d .waiting
  | failed (fault : Fault) (hspent : d.Spent) (hnot : ¬ c.Live) : Gives c d (.failed fault)
  | ended (hspent : d.Spent) (hnot : ¬ c.Live) : Gives c d .ended

/-- It has that left also if more has come in before. -/
theorem Gives.of_le {b c d : Connection} {receipt : Receipt} (h : c.Gives d receipt)
    (hle : c.pending ≤ b.pending) (hlive : b.Live → c.Live) : b.Gives d receipt := by
  cases h with
  | response response hless hthen =>
    exact .response response (Nat.lt_of_lt_of_le hless hle) fun h => hthen (hlive h)
  | waiting hread hopen hspent hthen =>
    exact .waiting hread hopen hspent fun h => hthen (hlive h)
  | failed fault hspent hnot => exact .failed fault hspent fun h => hnot (hlive h)
  | ended hspent hnot => exact .ended hspent fun h => hnot (hlive h)

theorem receiveRest_gives {c d : Connection} {receipt : Receipt} (h : c.atEnd = true)
    (hreceive : c.receiveRest = (receipt, d)) : c.Gives d receipt := by
  have hnot : ¬ c.Live := fun hlive => by cases h.symm.trans hlive.not_atEnd
  have hended := (receiveRest_receives h hreceive []).ended
  unfold receiveRest at hreceive
  split at hreceive
  · next r e hnext =>
    cases hreceive
    refine .response r ?_ fun hlive => absurd hlive hnot
    exact Nat.add_lt_add_left (nextAtEnd_length_lt hnext) _
  · cases hreceive
    refine .ended ?_ hnot
    rw [Spent, hended rfl]
    exact List.forall_mem_nil _

theorem receivePieces_gives {c d : Connection} {receipt : Receipt} (h : c.atEnd = false)
    {pieces : List (List UInt8)} (hreceive : c.receivePieces pieces = (receipt, d)) :
    Gives { c with unread := pieces } d receipt := by
  have hlive {decoder : Framing.Decoder} {unread : List (List UInt8)} :
      Live { c with unread := pieces } → Live { c with decoder, unread } :=
    fun hlive => ⟨hlive.output_open, hlive.not_atEnd, hlive.readable⟩
  induction pieces generalizing c with
  | nil =>
    unfold receivePieces at hreceive
    split at hreceive
    · next r e hnext =>
      cases hreceive
      exact .response r (Nat.add_lt_add_left (next_length_lt hnext) _) hlive
    · next e hnext =>
      have hspent : Spent { c with decoder := e, unread := [] } := by
        intro response hresponse
        rw [rest_of_open (c := { c with decoder := e, unread := [] }) h] at hresponse
        exact id?_of_readToEnd_nil (next_again hnext) hresponse
      split at hreceive
      · next fault hfault =>
        cases hreceive
        exact .failed fault hspent fun hlive => by cases hfault.symm.trans hlive.readable
      · split at hreceive
        · next hclosed =>
          refine (receiveRest_gives rfl hreceive).of_le ?_ ?_
          · exact Nat.add_le_add_left (next_none_length_le hnext) _
          · exact fun hlive => by cases hclosed.symm.trans hlive.output_open
        · next hopen =>
          cases hreceive
          exact .waiting rfl (Bool.eq_false_iff.2 hopen) hspent hlive
  | cons piece pieces ih =>
    unfold receivePieces at hreceive
    split at hreceive
    · next r e hnext =>
      cases hreceive
      exact .response r (Nat.add_lt_add_left (next_length_lt hnext) _) hlive
    · next e hnext =>
      have hfed := ih (c := { c with decoder := e.feed piece }) h hreceive fun hlive =>
        ⟨hlive.output_open, hlive.not_atEnd, hlive.readable⟩
      refine hfed.of_le ?_ hlive
      have hle := next_none_length_le hnext
      simp only [pending, feed, List.flatten_cons, List.length_append]
      omega

/-- What a connection has left when something has been received. -/
theorem receive_gives (c : Connection) : c.Gives c.receive.2 c.receive.1 := by
  unfold receive
  by_cases h : c.atEnd = true
  · rw [if_pos h]
    exact receiveRest_gives h rfl
  · rw [if_neg h]
    exact receivePieces_gives (Bool.eq_false_iff.2 h) rfl

end Connection

end RemoteEval
