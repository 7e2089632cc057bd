import NetTools.TFTPTransfer

namespace NetTools.TFTP

open CText Schedule StopAndWait

/-- The packets that the client has acknowledged. -/
def ClientThread.acknowledged (c : ClientThread) : ℕ :=
  c.receiver.copied.length+c.storing.toList.length

/-- The packets of the client's slice. -/
def ClientThread.packets (c : ClientThread) : ℕ := (c.size+(payloadSize-1))/payloadSize

namespace Session

/-- A data packet is in flight to the client, or received and not acknowledged yet. -/
def PacketComing (s : Session) : Prop := s.toClient ≠ [] ∨ s.transfer.acking ≠ none

/-- Something of the session is under way: its request, its handler's next packet, a data
packet or an ACK. -/
def InMotion (s : Session) : Prop :=
  (s.handler = none ∧ ∃ d ∈ s.toServer ++ s.inbox, isRequest d = true) ∨
  (∃ h ∈ s.handler, h.phase = .sending) ∨ s.acks ≠ [] ∨ s.PacketComing

instance (s : Session) : Decidable s.PacketComing :=
  inferInstanceAs (Decidable (s.toClient ≠ [] ∨ s.transfer.acking ≠ none))

instance (s : Session) : Decidable s.InMotion :=
  inferInstanceAs (Decidable ((s.handler = none ∧ ∃ d ∈ s.toServer ++ s.inbox, isRequest d = true) ∨
    (∃ h ∈ s.handler, h.phase = .sending) ∨ s.acks ≠ [] ∨ s.PacketComing))

end Session

/-- The client has acknowledged all packets, or lacks the last one only and it is coming,
or the server's socket is open and something of the session is under way. -/
def CanGoOn (s : Session) (c : ClientThread) : Prop :=
  c.acknowledged = c.packets ∨ (c.acknowledged+1 = c.packets ∧ s.PacketComing) ∨
  (s.socketOpen = true ∧ s.InMotion)

instance (s : Session) (c : ClientThread) : Decidable (CanGoOn s c) :=
  inferInstanceAs (Decidable (c.acknowledged = c.packets ∨
    (c.acknowledged+1 = c.packets ∧ s.PacketComing) ∨ (s.socketOpen = true ∧ s.InMotion)))

/-- The client lacks packets and will not get them. -/
structure Stuck (files : Bytes → Option Bytes) (s : Session) (c : ClientThread) (file : Bytes) :
    Prop where
  active : Active files s c file
  lacks : c.acknowledged < c.packets
  last : s.PacketComing → c.acknowledged+1 ≠ c.packets
  still : s.socketOpen = true → ¬ s.InMotion

section Stuck

variable {files : Bytes → Option Bytes} {s t : Session} {c c' : ClientThread} {file : Bytes}

theorem Active.packets_eq (h : Active files s c file) : packetCount (c.slice file) = c.packets := by
  rw [packetCount, h.slice_length, ClientThread.packets]

theorem Active.received_eq (h : Active files s c file) : s.transfer.received = c.acknowledged := by
  simp only [Transfer.received, Session.transfer, h.client, Option.map_some, Option.getD_some,
    Option.bind_some, ClientThread.acknowledged]

theorem Active.acknowledged_le (h : Active files s c file) : c.acknowledged ≤ c.packets := by
  have hbound : s.transfer.acked ≤ packetCount (c.slice file) := h.sound.bound
  rw [← h.received_eq, ← h.packets_eq]
  rcases h.sound.ahead with he | ⟨hw, he⟩
  · omega
  · have hsent : s.transfer.acked < packetCount (c.slice file) := h.sound.sent hw
    omega

/-- A client that lacks packets has bytes left to receive. -/
theorem Active.incomplete (h : Active files s c file) (hlt : c.receiver.copied.length < c.packets) :
    0 < c.receiver.bytesRemaining := by
  have hp : payloadSize = 1016 := rfl
  rw [h.bytesRemaining]
  rw [ClientThread.packets, hp] at hlt
  rw [hp]
  omega

/-- A stuck session has not ended with success. -/
theorem Stuck.not_success (h : Stuck files s c file) : c.phase ≠ .ended .success := by
  intro hp
  have hlt := h.lacks
  have hrem := h.active.incomplete (by
    unfold ClientThread.acknowledged at hlt
    omega)
  have hzero := h.active.exits.2.2 hp
  omega

theorem acking_cases (h : s.client = some c) : s.transfer.acking = c.acking := by
  simp only [Session.transfer, h, Option.bind_some]

/-- What keeps a session stuck: the client gets no further, and nothing new is under way. -/
theorem Stuck.of_quiet (h : Stuck files s c file) (hact : Active files t c' file)
    (hacked : c'.acknowledged = c.acknowledged) (hpackets : c'.packets = c.packets)
    (hcoming : t.PacketComing → s.PacketComing)
    (hopen : t.socketOpen = true → s.socketOpen = true)
    (hmotion : t.socketOpen = true → t.InMotion → s.InMotion) : Stuck files t c' file := by
  refine ⟨hact, ?_, ?_, ?_⟩
  · rw [hacked, hpackets]
    exact h.lacks
  · intro hc
    rw [hacked, hpackets]
    exact h.last (hcoming hc)
  · intro ho hm
    exact h.still (hopen ho) (hmotion ho hm)

/-- A step of the client that neither takes nor acknowledges a packet. -/
theorem Stuck.putClient (h : Stuck files s c file)
    (hact : Active files { s with client := some c' } c' file)
    (hacked : c'.acknowledged = c.acknowledged) (hsize : c'.size = c.size)
    (hacking : c'.acking = none) : Stuck files { s with client := some c' } c' file := by
  have hcoming : Session.PacketComing { s with client := some c' } → s.PacketComing := by
    rintro (hd | hg)
    · exact Or.inl hd
    · exact absurd hacking hg
  refine h.of_quiet hact hacked (by rw [ClientThread.packets, hsize]; rfl) hcoming id ?_
  rintro - (hr | hh | ha | hc)
  · exact Or.inl hr
  · exact Or.inr (Or.inl hh)
  · exact Or.inr (Or.inr (Or.inl ha))
  · exact Or.inr (Or.inr (Or.inr (hcoming hc)))

/-- A step that only takes messages of the session away or moves them in the server. -/
theorem Stuck.relocate (h : Stuck files s c file) (hact : Active files t c file)
    (hclient : t.client = s.client) (hopen : t.socketOpen = true → s.socketOpen = true)
    (htexts : ∀ d ∈ t.toServer ++ t.inbox, d ∈ s.toServer ++ s.inbox)
    (hdata : t.toClient.Sublist s.toClient) (hacks : t.acks.Subperm s.acks)
    (hnone : t.handler = none → s.handler = none)
    (hsending : (∃ h ∈ t.handler, h.phase = .sending) → ∃ h ∈ s.handler, h.phase = .sending) :
    Stuck files t c file := by
  have hcoming : t.PacketComing → s.PacketComing := by
    rintro (hd | hg)
    · left
      intro hnil
      rw [hnil, List.sublist_nil] at hdata
      exact hd hdata
    · right
      rw [Session.transfer, hclient] at hg
      exact hg
  refine h.of_quiet hact rfl rfl hcoming hopen ?_
  rintro - (⟨hn, d, hd, hr⟩ | hh | ha | hc)
  · exact Or.inl ⟨hnone hn, d, htexts d hd, hr⟩
  · exact Or.inr (Or.inl (hsending hh))
  · refine Or.inr (Or.inr (Or.inl fun hnil => ha ?_))
    rw [hnil] at hacks
    exact List.subperm_nil.mp hacks
  · exact Or.inr (Or.inr (Or.inr (hcoming hc)))

/-- A step of the server that needs a message of the session is not possible while the
socket is open; with the socket closed the session stays stuck. -/
theorem Stuck.closed (h : Stuck files s c file) (hact : Active files t c file)
    (hclient : t.client = s.client) (hdata : t.toClient = s.toClient)
    (hclosed : t.socketOpen = true → s.InMotion ∧ s.socketOpen = true) : Stuck files t c file := by
  have hno (ho : t.socketOpen = true) : False := h.still (hclosed ho).2 (hclosed ho).1
  -- with the socket closed nothing is left to show
  refine h.of_quiet hact rfl rfl ?_ (fun ho => (hno ho).elim) fun ho => (hno ho).elim
  rintro (hd | hg)
  · exact Or.inl (hdata ▸ hd)
  · right
    rw [Session.transfer, hclient] at hg
    exact hg

/-- A stuck client that acknowledges a packet still lacks another one. -/
theorem Stuck.sendAck (h : Stuck files s c file) {d : Bytes} (hp : c.phase = .acking d) :
    Stuck files
      { s with
        client := some (c.at (.storing d))
        toServer := s.toServer ++ [ackPacket (seqNumOf d)] }
      (c.at (.storing d)) file := by
  have hacking : s.transfer.acking = some d := by
    rw [acking_cases h.active.client, ClientThread.acking, hp]
  have hcoming : s.PacketComing := Or.inr (by rw [hacking]; exact Option.some_ne_none d)
  have hlast := h.last hcoming
  have hlacks := h.lacks
  have hstoring : c.storing = none := by rw [ClientThread.storing, hp]
  have hacked : (c.at (.storing d)).acknowledged = c.acknowledged+1 := by
    rw [ClientThread.acknowledged, ClientThread.acknowledged, hstoring]
    rfl
  have hclosed (ho : s.socketOpen = true) : False :=
    h.still ho (Or.inr (Or.inr (Or.inr hcoming)))
  refine ⟨h.active.sendAck hp, ?_, ?_, fun ho => (hclosed ho).elim⟩
  · rw [hacked]
    change c.acknowledged+1 < c.packets
    omega
  · have hdata := (h.active.sound.acking_only hacking).1
    rintro (hd | hg)
    · exact absurd hdata hd
    · exact absurd rfl hg

theorem wake_sending {handler : Option Handler}
    (h : ∃ h' ∈ handler.map Handler.wake, h'.phase = .sending) :
    ∃ h' ∈ handler, h'.phase = .sending := by
  obtain ⟨h', hh, hp⟩ := h
  obtain ⟨h₀, hh₀, rfl⟩ := Option.map_eq_some_iff.mp hh
  refine ⟨h₀, hh₀, ?_⟩
  unfold Handler.wake at hp
  split_ifs at hp with hasleep
  exact hp

/-- No step of any kind frees a stuck session. -/
theorem Stuck.step (h : Stuck files s c file) (hs : SessionStep files s t) :
    ∃ c', Stuck files t c' file := by
  have hact := h.active
  have hclient {c' : ClientThread} (hc : s.client = some c') : c' = c :=
    Option.some.inj (hc.symm.trans hact.client)
  have hquiet (e : Exit) (hs : c.storing = none) : (c.at (.ended e)).acknowledged = c.acknowledged := by
    rw [ClientThread.acknowledged, ClientThread.acknowledged, hs]
    rfl
  cases hs with
  | start hc => exact absurd (hc.symm.trans hact.client) (Option.some_ne_none c).symm
  | timeout hc hp =>
    cases hclient hc
    have hstoring : c.storing = none := by rw [ClientThread.storing, hp]
    refine ⟨_, h.putClient (hact.timeout hp) ?_ ?_ ?_⟩
    · unfold Receiver.onTimeout
      split_ifs
      · exact hquiet _ hstoring
      · rw [ClientThread.acknowledged, ClientThread.acknowledged, hstoring]
        rfl
    · unfold Receiver.onTimeout
      split_ifs <;> rfl
    · unfold Receiver.onTimeout
      split_ifs <;> rfl
  | setsockoptFails hc hp =>
    cases hclient hc
    have hstoring : c.storing = none := by rw [ClientThread.storing, hp]
    exact ⟨_, h.putClient (hact.ends hstoring (by decide) (by decide) (by simp))
      (hquiet _ hstoring) rfl rfl⟩
  | ackFails hc hp =>
    cases hclient hc
    have hstoring : c.storing = none := by rw [ClientThread.storing, hp]
    exact ⟨_, h.putClient (hact.ends hstoring (by decide) (by decide) (by simp))
      (hquiet _ hstoring) rfl rfl⟩
  -- the client lacks packets, so its loop cannot be over
  | finish hc hp hr =>
    cases hclient hc
    have hlt := h.lacks
    unfold ClientThread.acknowledged at hlt
    exact absurd (hact.incomplete (by omega)) hr
  -- only the packet that was coming anyway
  | receive hc hp hr hd =>
    cases hclient hc
    have hcoming : s.PacketComing := Or.inl (List.ne_nil_of_mem hd)
    have hstoring : c.storing = none := by rw [ClientThread.storing, hp]
    refine ⟨_, h.of_quiet (hact.receive hp hd) ?_ rfl (fun _ => hcoming) id ?_⟩
    · rw [ClientThread.acknowledged, ClientThread.acknowledged, hstoring]
      rfl
    · intro _ _
      exact Or.inr (Or.inr (Or.inr hcoming))
  | sendAck hc hp =>
    cases hclient hc
    exact ⟨_, h.sendAck hp⟩
  | @store _ d hc hp =>
    cases hclient hc
    refine ⟨_, h.putClient (hact.store hp) ?_ ?_ ?_⟩
    · have hstoring : c.storing = some d := by rw [ClientThread.storing, hp]
      rw [hact.store_ok hp, ClientThread.acknowledged, ClientThread.acknowledged, hstoring,
        ClientThread.after, Receiver.stored, List.length_append]
      rfl
    · rw [hact.store_ok hp]
      rfl
    · rw [hact.store_ok hp]
      rfl
  | lose hs hc =>
    have htexts := (hs.append_right s.inbox).subperm
    exact ⟨c, h.relocate (hact.relocate htexts hc) rfl id (fun d hd => htexts.subset hd) hc
      (acks_subperm htexts) id id⟩
  | @serverReceive d hi hd =>
    have hperm : (s.toServer.erase d ++ [d]).Subperm (s.toServer ++ s.inbox) := by
      rw [hi, List.append_nil]
      exact (List.perm_append_comm.trans (List.perm_cons_erase hd).symm).subperm
    exact ⟨c, h.relocate (hact.relocate hperm (List.Sublist.refl _)) rfl id
      (fun d hd => hperm.subset hd) (List.Sublist.refl _) (acks_subperm hperm) id id⟩
  | enqueue stackSeq hi hr =>
    refine ⟨c, h.relocate (hact.enqueue stackSeq hi hr) rfl id ?_ (List.Sublist.refl _)
      (hact.enqueue_acks stackSeq hi hr).subperm Option.map_eq_none_iff.mp wake_sending⟩
    intro d hd
    rw [List.append_nil] at hd
    exact List.mem_append_left _ hd
  | discard =>
    have hsub : (s.toServer ++ []).Subperm (s.toServer ++ s.inbox) := by
      rw [List.append_nil]
      exact (List.sublist_append_left _ _).subperm
    exact ⟨c, h.relocate (hact.relocate hsub (List.Sublist.refl _)) rfl id
      (fun d hd => hsub.subset hd) (List.Sublist.refl _) (acks_subperm hsub) id id⟩
  -- the request of the client is not answered with a text
  | reply hi hr ht =>
    have hstart := (hact.inbox_request hi hr).1
    rw [ht] at hstart
    cases hstart
  -- what the server still has to do shows that the socket is closed
  | spawn hi hr hs hn =>
    refine ⟨c, h.closed (hact.spawn hi hr hs hn) rfl rfl fun ho => ⟨Or.inl ⟨hn, ?_⟩, ho⟩⟩
    exact ⟨_, by rw [hi]; exact List.mem_append_right _ List.mem_cons_self,
      (hact.inbox_request hi hr).2.1⟩
  | handlerEnds hh hp ho =>
    exact ⟨c, h.closed (hact.handlerEnds _ hh hp) rfl rfl fun ho' =>
      ⟨Or.inr (Or.inl ⟨_, hh, hp⟩), ho ho'⟩⟩
  | close =>
    have hclose : Active files { s with socketOpen := false } c file :=
      hact.weaken rfl (List.Subperm.refl _) (List.Sublist.refl _) (List.Subperm.refl _) rfl rfl
        hact.handler hact.awake
    exact ⟨c, h.closed hclose rfl rfl fun ho => by cases ho⟩
  | send hh hp he ho => exact absurd (Or.inr (Or.inl ⟨_, hh, hp⟩)) (h.still ho)
  | takeAck hh hp hq =>
    refine ⟨c, h.closed (hact.takeAck hh hp hq) rfl rfl fun ho => ⟨?_, ho⟩⟩
    exact Or.inr (Or.inr (Or.inl (List.ne_nil_of_mem (List.mem_append_right _ hq))))
  | sleep hh hp hq =>
    refine ⟨c, h.relocate (hact.sleep hh hp hq) rfl id (fun d hd => hd) (List.Sublist.refl _)
      (List.Subperm.refl _) (by simp) ?_⟩
    rintro ⟨h', hh', hp'⟩
    rw [Option.mem_some_iff] at hh'
    rw [← hh'] at hp'
    cases hp'
  | wake =>
    exact ⟨c, h.relocate hact.wake rfl id (fun d hd => hd) (List.Sublist.refl _)
      (List.Subperm.refl _) Option.map_eq_none_iff.mp wake_sending⟩

end Stuck

end NetTools.TFTP
