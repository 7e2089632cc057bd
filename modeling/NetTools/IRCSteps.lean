import NetTools.IRCServer

namespace NetTools.IRC

open CText CArray

/-- The command line a handler has received and not executed yet. -/
def Session.pending (ses : Session) : Option Bytes :=
  match ses.phase with
  | .running buffer => some buffer
  | _ => none

theorem Session.mem_pending {ses : Session} {buffer : Bytes} :
    buffer ∈ ses.pending ↔ ses.phase = .running buffer := by
  unfold Session.pending
  split
  · rename_i b hp
    rw [hp, Option.mem_some_iff, Phase.running.injEq]
  · rename_i hp
    exact ⟨nofun, fun h => absurd h (hp buffer)⟩

inductive Step (s : Server) : Action → Server → Prop
  | accept {x socket : ℕ} (hx : s.sessions x = none) (hfd : socket ∉ s.openSockets) :
      Step s (.accept x socket)
        { s.put x ⟨socket, [], .joining, []⟩ with openSockets := socket :: s.openSockets }
  | recvId {x : ℕ} {ses : Session} {data id : Bytes} (hx : s.sessions x = some ses)
      (hp : ses.phase = .joining) (hl : data.length ≤ idSize) (hid : lineIn idSize data = some id) :
      Step s (.recvId x data) (s.put x { ses with clientId := id, phase := .registering })
  | refuse {x : ℕ} {ses : Session} (hx : s.sessions x = some ses)
      (hp : ses.phase = .registering) (hm : s.mutex = none)
      (ht : s.registry.idTaken ses.clientId = true) :
      Step s (.register x) ((s.put x (ses.say .idTaken .ended)).close ses.socket)
  | register {x : ℕ} {ses : Session} {r : Registry} (hx : s.sessions x = some ses)
      (hp : ses.phase = .registering) (hm : s.mutex = none)
      (ht : s.registry.idTaken ses.clientId = false)
      (hr : s.registry.addClient ses.clientId ses.socket = some r) :
      Step s (.register x)
        ((s.put x (ses.say (.connected ses.clientId) .reading)).withRegistry r)
  | hangUp {x : ℕ} {ses : Session} (hx : s.sessions x = some ses) (hp : ses.phase = .reading) :
      Step s (.recvCommand x []) ((s.put x (ses.at .leaving)).close ses.socket)
  | recvCommand {x : ℕ} {ses : Session} {data buffer : Bytes} (hx : s.sessions x = some ses)
      (hp : ses.phase = .reading) (hl : data.length ≤ bufferSize) (hne : data ≠ [])
      (hb : lineIn bufferSize data = some buffer) :
      Step s (.recvCommand x data) (s.put x (ses.at (.running buffer)))
  | removeClient {x : ℕ} {ses : Session} (hx : s.sessions x = some ses)
      (hp : ses.phase = .leaving) (hm : s.mutex = none) :
      Step s (.removeClient x)
        ((s.put x (ses.at .ended)).withRegistry (s.registry.removeClient ses.socket))
  | listNone {x : ℕ} {ses : Session} {buffer g : Bytes} {k : Int} (hx : s.sessions x = some ses)
      (hp : ses.phase = .running buffer) (hc : commandOf buffer = .list)
      (hw : s.registry.waitingCount = 0) :
      Step s (.exec x g k) (s.put x (ses.say .noneWaiting .reading))
  | listSome {x : ℕ} {ses : Session} {buffer g : Bytes} {k : Int} (hx : s.sessions x = some ses)
      (hp : ses.phase = .running buffer) (hc : commandOf buffer = .list)
      (hw : s.registry.waitingCount ≠ 0) :
      Step s (.exec x g k) (s.put x (ses.at .listing))
  | sendList {x : ℕ} {ses : Session} (hx : s.sessions x = some ses) (hp : ses.phase = .listing)
      (hm : s.mutex = none)
      (hl : (Reply.waitingList s.registry.waiting).text.length < bufferSize) :
      Step s (.sendList x) (s.put x (ses.say (.waitingList s.registry.waiting) .reading))
  | waitLock {x : ℕ} {ses : Session} {buffer g : Bytes} {k : Int} (hx : s.sessions x = some ses)
      (hp : ses.phase = .running buffer) (hc : commandOf buffer = .wait)
      (hm : s.mutex = none) (hi : s.registry.waitingIndex ses.clientId = none) :
      Step s (.exec x g k) ((s.put x (ses.at .portRecv)).withMutex (some x))
  | waitAgain {x i : ℕ} {ses : Session} {buffer g : Bytes} {k : Int} (hx : s.sessions x = some ses)
      (hp : ses.phase = .running buffer) (hc : commandOf buffer = .wait)
      (hm : s.mutex = none) (hi : s.registry.waitingIndex ses.clientId = some i) :
      Step s (.exec x g k) (s.put x (ses.say .alreadyWaiting .reading))
  | portOk {x : ℕ} {ses : Session} {data : Bytes} {r : Registry} (hx : s.sessions x = some ses)
      (hp : ses.phase = .portRecv) (hm : s.mutex = some x) (hl : data.length ≤ bufferSize)
      (hport : 0 < atoi data) (hr : s.registry.addWaiting ses.clientId (atoi data) = some r) :
      Step s (.recvPort x data)
        (((s.put x (ses.say .waiting .reading)).withRegistry r).withMutex none)
  | portBad {x : ℕ} {ses : Session} {data : Bytes} (hx : s.sessions x = some ses)
      (hp : ses.phase = .portRecv) (hm : s.mutex = some x) (hl : data.length ≤ bufferSize)
      (hport : ¬ 0 < atoi data) :
      Step s (.recvPort x data) ((s.put x (ses.say .invalidPort .reading)).withMutex none)
  | connectNone {x : ℕ} {ses : Session} {buffer g targetId : Bytes} {k : Int}
      (hx : s.sessions x = some ses) (hp : ses.phase = .running buffer)
      (hc : commandOf buffer = .connect) (hm : s.mutex = none)
      (ht : connectTarget buffer g = some targetId)
      (hi : s.registry.waitingIndex targetId = none) :
      Step s (.exec x g k) (s.put x (ses.say .notWaiting .reading))
  | connect {x i : ℕ} {ses : Session} {buffer g targetId : Bytes} {k : Int} {r : Registry}
      (hx : s.sessions x = some ses) (hp : ses.phase = .running buffer)
      (hc : commandOf buffer = .connect) (hm : s.mutex = none)
      (ht : connectTarget buffer g = some targetId)
      (hi : s.registry.waitingIndex targetId = some i)
      (hr : s.registry.removeWaiting i = some r) :
      Step s (.exec x g k)
        ((s.put x (ses.say (.connect targetId (s.registry.clients i).port) .reading)).withRegistry r)
  | stopWait {x : ℕ} {ses : Session} {buffer g : Bytes} {k : Int} {r : Registry}
      (hx : s.sessions x = some ses) (hp : ses.phase = .running buffer)
      (hc : commandOf buffer = .stopWait) (hm : s.mutex = none)
      (hr : s.registry.removeWaiting (stopIndex s.registry ses.clientId k) = some r) :
      Step s (.exec x g k) ((s.put x (ses.say .stoppedWaiting .reading)).withRegistry r)
  | quit {x : ℕ} {ses : Session} {buffer g : Bytes} {k : Int} (hx : s.sessions x = some ses)
      (hp : ses.phase = .running buffer) (hc : commandOf buffer = .quit) :
      Step s (.exec x g k) ((s.put x (ses.at .ended)).close ses.socket)
  | badPrompt {x : ℕ} {ses : Session} {buffer g : Bytes} {k : Int} (hx : s.sessions x = some ses)
      (hp : ses.phase = .running buffer) (hc : commandOf buffer = .badPrompt) :
      Step s (.exec x g k) (s.put x (ses.say .badPrompt .reading))

theorem exec_cases {s t : Server} {x : ℕ} {ses : Session} {buffer g : Bytes} {k : Int}
    (hx : s.sessions x = some ses) (hp : ses.phase = .running buffer)
    (h : s.execCommand x ses buffer g k = some t) : Step s (.exec x g k) t := by
  unfold Server.execCommand at h
  split at h
  case h_1 hc =>
    split_ifs at h with hw
    · cases h
      exact .listNone hx hp hc hw
    · cases h
      exact .listSome hx hp hc hw
  case h_2 hc =>
    split_ifs at h with hm
    split at h
    · rename_i hi
      cases h
      exact .waitLock hx hp hc hm hi
    · rename_i i hi
      cases h
      exact .waitAgain hx hp hc hm hi
  case h_3 hc =>
    split_ifs at h with hm
    obtain ⟨targetId, ht, h⟩ := Option.bind_eq_some_iff.mp h
    split at h
    · rename_i hi
      cases h
      exact .connectNone hx hp hc hm ht hi
    · rename_i i hi
      obtain ⟨r, hr, rfl⟩ := Option.map_eq_some_iff.mp h
      exact .connect hx hp hc hm ht hi hr
  case h_4 hc =>
    split_ifs at h with hm
    obtain ⟨r, hr, rfl⟩ := Option.map_eq_some_iff.mp h
    exact .stopWait hx hp hc hm hr
  case h_5 hc =>
    cases h
    exact .quit hx hp hc
  case h_6 hc =>
    cases h
    exact .badPrompt hx hp hc

/-- Every step of the executable server is one of the paths of `Step`. -/
theorem step_cases {s t : Server} {a : Action} (h : s.step a = some t) : Step s a t := by
  cases a with
  | accept x socket =>
    simp only [Server.step, Option.ite_none_right_eq_some, Option.some.injEq] at h
    obtain ⟨⟨hx, hfd⟩, rfl⟩ := h
    exact .accept hx hfd
  | recvId x data =>
    obtain ⟨ses, hx, h⟩ := Option.bind_eq_some_iff.mp h
    simp only [Option.ite_none_right_eq_some] at h
    obtain ⟨⟨hp, hl⟩, h⟩ := h
    obtain ⟨id, hid, rfl⟩ := Option.map_eq_some_iff.mp h
    exact .recvId hx hp hl hid
  | register x =>
    obtain ⟨ses, hx, h⟩ := Option.bind_eq_some_iff.mp h
    simp only [Option.ite_none_right_eq_some] at h
    obtain ⟨⟨hp, hm⟩, h⟩ := h
    split_ifs at h with ht
    · cases h
      exact .refuse hx hp hm ht
    · obtain ⟨r, hr, rfl⟩ := Option.map_eq_some_iff.mp h
      exact .register hx hp hm (by simpa using ht) hr
  | recvCommand x data =>
    obtain ⟨ses, hx, h⟩ := Option.bind_eq_some_iff.mp h
    simp only [Option.ite_none_right_eq_some] at h
    obtain ⟨⟨hp, hl⟩, h⟩ := h
    split_ifs at h with hne
    · cases h
      subst hne
      exact .hangUp hx hp
    · obtain ⟨buffer, hb, rfl⟩ := Option.map_eq_some_iff.mp h
      exact .recvCommand hx hp hl hne hb
  | removeClient x =>
    obtain ⟨ses, hx, h⟩ := Option.bind_eq_some_iff.mp h
    simp only [Option.ite_none_right_eq_some, Option.some.injEq] at h
    obtain ⟨⟨hp, hm⟩, rfl⟩ := h
    exact .removeClient hx hp hm
  | exec x g k =>
    obtain ⟨ses, hx, h⟩ := Option.bind_eq_some_iff.mp h
    split at h
    · rename_i buffer hp
      exact exec_cases hx hp h
    · cases h
  | sendList x =>
    obtain ⟨ses, hx, h⟩ := Option.bind_eq_some_iff.mp h
    simp only [Option.ite_none_right_eq_some, Option.some.injEq] at h
    obtain ⟨⟨hp, hm, hl⟩, rfl⟩ := h
    exact .sendList hx hp hm hl
  | recvPort x data =>
    obtain ⟨ses, hx, h⟩ := Option.bind_eq_some_iff.mp h
    simp only [Option.ite_none_right_eq_some] at h
    obtain ⟨⟨hp, hm, hl⟩, h⟩ := h
    split_ifs at h with hport
    · obtain ⟨r, hr, rfl⟩ := Option.map_eq_some_iff.mp h
      exact .portOk hx hp hm hl hport hr
    · cases h
      exact .portBad hx hp hm hl hport

end NetTools.IRC
