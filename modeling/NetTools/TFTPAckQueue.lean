import NetTools.TFTPProcess
import NetTools.TFTPTransfer

namespace NetTools.TFTP

open CText Schedule StopAndWait

/-- The handler at `a` has sent packet `n` and looks or sleeps for its ACK. -/
def WaitsFor (s : Net) (a n : ℕ) : Prop :=
  ∃ h, s.handlers a = some h ∧ h.isWaiting = true ∧ h.seqNum = n

/-- An entry of the queue is an ACK that the handler of its address waits for. -/
theorem waitsFor_of_queued {files : Bytes → Option Bytes} {C : Net → Action → Prop} {s : Net}
    (h : Reachable (Net.step files) C .start s) {ack : AckPacket} (hq : ack ∈ s.ackQueue) :
    WaitsFor s ack.clientAddr ack.seqNum := by
  have hmem : ack.seqNum ∈ (s.session ack.clientAddr).queue := (mem_queueOf s).mpr hq
  rcases sessionOk_of_reachable h ack.clientAddr with hu | ⟨c, file, hact⟩
  · rw [hu] at hmem
    cases hmem
  · obtain ⟨hw, hn⟩ := hact.queue_eq hmem
    cases hh : (s.session ack.clientAddr).handler with
    | none =>
      simp only [Session.transfer, hh] at hw
      cases hw
    | some h' =>
      simp only [Session.transfer, hh, Option.map_some, Option.getD_some] at hw hn
      exact ⟨h', hh, hw, hn.symm⟩

end NetTools.TFTP
