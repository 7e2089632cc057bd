import NetTools.FTPSurvival
import NetTools.ErrorReplies

namespace NetTools.FTP

open CText Schedule
open TFTP (RangeRejected)

/-- What a descriptor is open for: `file` is the first `fopen` of a request, `shadow` the second
one of a `GET`. The second one of a `CHECK` is closed before the next call. -/
inductive Descriptor
  | standard
  | service
  | client
  | file
  | shadow
  deriving DecidableEq

namespace Place

/-- A client is connected. -/
def busy : Place → Bool
  | accepting => false
  | _ => true

/-- The loops of a `GET`. -/
def inLoops : Place → Bool
  | reading _ | sending _ => true
  | _ => false

def acceptsClient : Place → Call → Bool
  | accepting, .accept true => true
  | _, _ => false

/-- The first `fopen` of a request. -/
def opensFile : Place → Call → Bool
  | opening _, .fopen (some _) => true
  | _, _ => false

/-- The second `fopen` of a `GET`. -/
def opensShadow : Place → Call → Bool
  | reopening (.get ..), .fopen (some _) => true
  | _, _ => false

/-- A `write` of no byte, behind which the function returns at once. -/
def cutsOff : Place → Call → Bool
  | sending _, .write (.sent 0) => true
  | _, _ => false

/-- What the connection at hand has open and will close. -/
def holds (place : Place) : Descriptor → ℕ
  | .client => place.busy.toNat
  | .shadow => place.inLoops.toNat
  | _ => 0

/-- What the call opens and leaves open. -/
def opens (place : Place) (c : Call) : Descriptor → ℕ
  | .client => (place.acceptsClient c).toNat
  | .file => (place.opensFile c).toNat
  | .shadow => (place.opensShadow c).toNat
  | _ => 0

/-- What is closed on the way back to `accept`. -/
def closes (place : Place) (c : Call) : Descriptor → ℕ
  | .client => place.busy.toNat
  | .shadow => (place.inLoops && !place.cutsOff c).toNat
  | _ => 0

/-- What the call loses track of: the outer file as soon as it is open, and the inner one where
the function returns without its `fclose`. -/
def loses (place : Place) (c : Call) : Descriptor → ℕ
  | .file => (place.opensFile c).toNat
  | .shadow => (place.cutsOff c).toNat
  | _ => 0

end Place

/-- The process with the number of its open descriptors of each kind. `passed` counts the
requests whose file was opened, `cutOff` the transfers that a `write` of no byte ended. -/
structure Holder where
  server : Server
  table : Descriptor → ℕ
  passed : ℕ
  cutOff : ℕ

namespace Holder

def start : Holder := ⟨.start, fun | .standard => 3 | .service => 1 | _ => 0, 0, 0⟩

def size (p : Holder) : ℕ :=
  p.table .standard+p.table .service+p.table .client+p.table .file+p.table .shadow

/-- `accept` and `fopen` succeed only while a descriptor is free. -/
def allows (limit : ℕ) (p : Holder) : Call → Bool
  | .accept true | .fopen (some _) => p.size < limit
  | _ => true

/-- The table behind a call that leaves the server as `t`; the end of the process closes all. -/
def tableAfter (p : Holder) (c : Call) (t : Server) (d : Descriptor) : ℕ :=
  if t.status ≠ .running then 0
  else
    p.table d+p.server.place.opens c d-(if t.place = .accepting then p.server.place.closes c d else 0)

def step (limit : ℕ) (p : Holder) (c : Call) : Option Holder :=
  if p.allows limit c then
    (p.server.step c).map fun t =>
      ⟨t, p.tableAfter c t, p.passed+p.server.place.loses c .file,
        p.cutOff+p.server.place.loses c .shadow⟩
  else none

end Holder

namespace Server

variable {s t : Server} {c : Call}

/-- Where a request leads that is not fatal. -/
theorem receive_place {data : Option Bytes} {stale : Bytes}
    (h : (s.receive data stale).status = .running) :
    (s.receive data stale).place = .accepting ∨
      (∃ command, (s.receive data stale).place = .opening command) ∨
      (s.receive data stale).place = .answering [] := by
  unfold receive at h ⊢
  split at h
  · exact Or.inl rfl
  · exact Or.inl rfl
  · split at h
    · exact Or.inr (Or.inl ⟨_, rfl⟩)
    · exact Or.inr (Or.inr rfl)
    · cases h

/-- Behind the inner loop the transfer goes on or the connection is over. -/
theorem goOn_place {tr : Transfer} (h : (s.goOn tr).status = .running) :
    (s.goOn tr).place = .accepting ∨ (∃ tr', (s.goOn tr).place = .sending tr') ∨
      ∃ tr', (s.goOn tr).place = .reading tr' := by
  simp only [goOn] at h ⊢
  split_ifs at h ⊢
  · exact Or.inr (Or.inl ⟨_, rfl⟩)
  · cases h
  · exact Or.inr (Or.inr ⟨_, rfl⟩)
  · exact Or.inl rfl

/-- Behind a `write` of some bytes nothing is lost. -/
theorem held_goOn (tr : Transfer) {result : WriteResult}
    (hr : result = .failed ∨ ∃ n, result = .sent (n+1)) (d : Descriptor)
    (hplace : t.place = .accepting ∨ (∃ tr', t.place = .sending tr') ∨ ∃ tr', t.place = .reading tr') :
    (Place.sending tr).holds d+(Place.sending tr).opens (.write result) d =
      t.place.holds d+(Place.sending tr).loses (.write result) d+
        (if t.place = .accepting then (Place.sending tr).closes (.write result) d else 0) := by
  rcases hplace with hplace | ⟨tr', hplace⟩ | ⟨tr', hplace⟩
  · rw [hplace]
    rcases hr with rfl | ⟨n, rfl⟩ <;> cases d <;> rfl
  · rw [hplace]
    rcases hr with rfl | ⟨n, rfl⟩ <;> cases d <;> rfl
  · rw [hplace]
    rcases hr with rfl | ⟨n, rfl⟩ <;> cases d <;> rfl

/-- What is held before a call and what the call opens is held behind it, closed, or lost. -/
theorem held_step (h : Step s c t) (hrun : t.status = .running) (d : Descriptor) :
    s.place.holds d+s.place.opens c d =
      t.place.holds d+s.place.loses c d+(if t.place = .accepting then s.place.closes c d else 0) := by
  cases h with
  | @accept ok hp =>
    rw [hp]
    cases ok with
    | true => cases d <;> rfl
    | false =>
      simp only [Bool.false_eq_true, ↓reduceIte, hp]
      cases d <;> rfl
  | recv hp =>
    rw [hp]
    rcases receive_place hrun with hplace | ⟨command, hplace⟩ | hplace
    · rw [hplace]
      cases d <;> rfl
    · rw [hplace]
      cases d <;> rfl
    · rw [hplace]
      cases d <;> rfl
  | @answer text result hp =>
    rw [hp]
    cases result with
    | brokenPipe => cases hrun
    | sent n => cases d <;> rfl
    | failed => cases d <;> rfl
  | @fopen command file hp =>
    rw [hp]
    cases file with
    | none => cases d <;> rfl
    | some file => cases d <;> rfl
  | @reopen command file hp =>
    rw [hp]
    cases command with
    | check filename =>
      cases file with
      | none => cases d <;> rfl
      | some file => cases d <;> rfl
    | get filename offset chunkSize =>
      cases file with
      | none => cases d <;> rfl
      | some file =>
        by_cases hrange : RangeRejected offset chunkSize file.length
        · rw [reopen, if_pos hrange] at hrun
          cases hrun
        · rw [reopen, if_neg hrange]
          cases d <;> rfl
  | @fread tr n hp =>
    rw [hp]
    by_cases hn : n = 0
    · rw [if_pos hn]
      cases d <;> rfl
    · rw [if_neg hn]
      cases d <;> rfl
  | @send tr result hp =>
    rw [hp]
    cases result with
    | brokenPipe => cases hrun
    | failed => exact held_goOn tr (Or.inl rfl) d (goOn_place hrun)
    | sent n =>
      cases n with
      -- the return that leaves the inner file open
      | zero => cases d <;> rfl
      | succ n =>
        rw [send_sent (Nat.succ_pos n)] at hrun ⊢
        exact held_goOn tr (Or.inr ⟨n, rfl⟩) d (goOn_place hrun)

/-- The server stays in front of the second `fopen`, and a client is sent at most the error
text; `last` is what the client before had been sent. -/
structure Barred (last : Bytes) (s : Server) : Prop where
  place : s.place = .accepting ∨ s.place = .receiving ∨ (∃ command, s.place = .opening command) ∨
    ∃ text, s.place = .answering text ∧ text <+: errorReply
  nothing : s.place ≠ .accepting → s.stream = []
  sent : s.stream = last ∨ s.stream <+: errorReply

theorem Barred.goTo {last : Bytes} {place : Place} (hnil : s.stream = [])
    (hplace : place = .accepting ∨ place = .receiving ∨ (∃ command, place = .opening command) ∨
      ∃ text, place = .answering text ∧ text <+: errorReply) : (s.goTo place).Barred last :=
  ⟨hplace, fun _ => hnil, Or.inr (hnil ▸ List.nil_prefix)⟩

/-- Without a successful `fopen` no call leads further. -/
theorem Barred.step {last : Bytes} (hs : s.Barred last) (h : Step s c t)
    (hopen : s.place.opensFile c = false) : t.Barred last := by
  have hnil (hne : s.place ≠ .accepting) := hs.nothing hne
  cases h with
  | @accept ok hp =>
    cases ok with
    | false => exact hs
    | true => exact ⟨Or.inr (Or.inl rfl), fun _ => rfl, Or.inr List.nil_prefix⟩
  | @recv data stale hp =>
    rw [hp] at hnil
    unfold receive
    split
    · exact .goTo (hnil (by simp)) (Or.inl rfl)
    · exact .goTo (hnil (by simp)) (Or.inl rfl)
    · split
      · exact .goTo (hnil (by simp)) (Or.inr (Or.inr (Or.inl ⟨_, rfl⟩)))
      · exact .goTo (hnil (by simp)) (Or.inr (Or.inr (Or.inr ⟨_, rfl, List.nil_prefix⟩)))
      · exact ⟨hs.place, hs.nothing, hs.sent⟩
  | @answer text result hp =>
    have htext : text <+: errorReply := by
      rcases hs.place with h | h | ⟨command, h⟩ | ⟨text', h, htext⟩
      · cases hp.symm.trans h
      · cases hp.symm.trans h
      · cases hp.symm.trans h
      · cases hp.symm.trans h
        exact htext
    rw [hp] at hnil
    cases result with
    | sent n =>
      refine ⟨Or.inl rfl, fun hne => absurd rfl hne, Or.inr ?_⟩
      change s.stream ++ text.take n <+: errorReply
      rw [hnil (by simp)]
      exact (List.take_prefix n text).trans htext
    | failed => exact .goTo (hnil (by simp)) (Or.inl rfl)
    | brokenPipe => exact ⟨hs.place, hs.nothing, hs.sent⟩
  | @fopen command file hp =>
    cases file with
    | some file =>
      rw [hp] at hopen
      cases hopen
    | none =>
      rw [hp] at hnil
      exact .goTo (hnil (by simp)) (Or.inr (Or.inr (Or.inr ⟨_, rfl, List.prefix_rfl⟩)))
  -- the three other places are beyond the second `fopen`
  | reopen hp =>
    rcases hs.place with h | h | ⟨command, h⟩ | ⟨text, h, -⟩ <;> cases hp.symm.trans h
  | fread hp =>
    rcases hs.place with h | h | ⟨command, h⟩ | ⟨text, h, -⟩ <;> cases hp.symm.trans h
  | send hp =>
    rcases hs.place with h | h | ⟨command, h⟩ | ⟨text, h, -⟩ <;> cases hp.symm.trans h

/-- A server that is barred is not in the loops. -/
theorem Barred.inLoops {last : Bytes} (hs : s.Barred last) : s.place.inLoops = false := by
  rcases hs.place with h | h | ⟨command, h⟩ | ⟨text, h, -⟩ <;> rw [h] <;> rfl

end Server

namespace Holder

variable {limit : ℕ} {p q : Holder} {c : Call}

/-- What the process has lost track of. -/
def lost (p : Holder) : Descriptor → ℕ
  | .file => p.passed
  | .shadow => p.cutOff
  | _ => 0

/-- The table as the books have it. -/
def books (p : Holder) (d : Descriptor) : ℕ := start.table d+p.server.place.holds d+p.lost d

/-- The descriptors of the connection at hand. -/
def serving (p : Holder) : ℕ := p.server.place.holds .client+p.server.place.holds .shadow

theorem size_eq (h : p.table = p.books) : p.size = 4+p.passed+p.cutOff+p.serving := by
  have hnone : p.server.place.holds .standard = 0 ∧ p.server.place.holds .service = 0 ∧
      p.server.place.holds .file = 0 := by
    cases p.server.place <;> exact ⟨rfl, rfl, rfl⟩
  simp only [size, h, books, serving, lost, start, hnone]
  omega

theorem step_cases (h : p.step limit c = some q) :
    p.allows limit c = true ∧ p.server.status = .running ∧ Step p.server c q.server ∧
      q.table = p.tableAfter c q.server ∧ q.passed = p.passed+p.server.place.loses c .file ∧
      q.cutOff = p.cutOff+p.server.place.loses c .shadow := by
  simp only [step, Option.ite_none_right_eq_some, Option.map_eq_some_iff] at h
  obtain ⟨hallows, t, ht, rfl⟩ := h
  obtain ⟨hrun, hstep⟩ := FTP.step_cases ht
  exact ⟨hallows, hrun, hstep, rfl, rfl, rfl⟩

/-- While the process runs, the table is as the books have it. -/
theorem books_step (hp : p.server.status = .running → p.table = p.books) (h : p.step limit c = some q)
    (hrun : q.server.status = .running) : q.table = q.books := by
  obtain ⟨-, hrunp, hstep, htable, hpassed, hcut⟩ := step_cases h
  have hlost (d : Descriptor) : q.lost d = p.lost d+p.server.place.loses c d := by
    cases d with
    | file => exact hpassed
    | shadow => exact hcut
    | _ => rfl
  funext d
  have hheld := Server.held_step hstep hrun d
  rw [htable, tableAfter, if_neg (not_not_intro hrun), hp hrunp, books, books, hlost]
  omega

/-- `fopen` needs a free descriptor beside the client's. -/
theorem room_of_fopen (hallows : p.allows limit c = true)
    (h : p.server.place.opensFile c = true ∨ p.server.place.opensShadow c = true) :
    p.size < limit ∧ p.server.place.busy = true := by
  rcases h with h | h
  · unfold Place.opensFile at h
    split at h
    · rename_i hp
      rw [hp]
      exact ⟨of_decide_eq_true hallows, rfl⟩
    · cases h
  · unfold Place.opensShadow at h
    split at h
    · rename_i hp
      rw [hp]
      exact ⟨of_decide_eq_true hallows, rfl⟩
    · cases h

/-- A call opens at most one file, and none while the loops run. -/
theorem opens_le (place : Place) (c : Call) :
    (place.opensFile c).toNat+(place.opensShadow c).toNat+place.inLoops.toNat ≤ 1 := by
  cases place with
  | accepting | receiving | answering text => exact Nat.zero_le 1
  | opening command => exact Bool.toNat_le _
  | reopening command =>
    have hshadow := Bool.toNat_le ((Place.reopening command).opensShadow c)
    change 0+_+0 ≤ 1
    omega
  | reading t | sending t => exact Nat.le_refl 1

/-- The inner file is lost only in the loops. -/
theorem cutsOff_le (place : Place) (c : Call) : (place.cutsOff c).toNat ≤ place.inLoops.toNat := by
  cases place with
  | sending t => exact Bool.toNat_le _
  | _ => exact Nat.zero_le _

/-- The limit leaves room for the client at hand, and for the inner file in the loops. -/
structure Fits (limit : ℕ) (p : Holder) : Prop where
  table : p.server.status = .running → p.table = p.books
  lost : p.passed+p.cutOff+5 ≤ limit
  loops : p.server.status = .running → p.passed+p.cutOff+5+p.server.place.inLoops.toNat ≤ limit

theorem fits_step (hp : Fits limit p) (h : p.step limit c = some q) : Fits limit q := by
  have hbooks := books_step hp.table h
  obtain ⟨hallows, hrunp, hstep, -, hpassed, hcut⟩ := step_cases h
  have hsize := size_eq (hp.table hrunp)
  have hloops := hp.loops hrunp
  have hone := opens_le p.server.place c
  have hcutsOff := cutsOff_le p.server.place c
  -- a file that is opened now found a free descriptor beside the client's
  have hroom : p.passed+p.cutOff+5+(p.server.place.opensFile c).toNat+
      (p.server.place.opensShadow c).toNat+p.server.place.inLoops.toNat ≤ limit := by
    by_cases hopen : p.server.place.opensFile c = true ∨ p.server.place.opensShadow c = true
    · obtain ⟨hlt, hbusy⟩ := room_of_fopen hallows hopen
      have hserving : p.serving = 1+p.server.place.inLoops.toNat := by
        rw [serving, Place.holds, hbusy]
        rfl
      omega
    · rw [not_or, Bool.not_eq_true, Bool.not_eq_true] at hopen
      rw [hopen.1, hopen.2]
      exact hloops
  have hpassed' : q.passed = p.passed+(p.server.place.opensFile c).toNat := hpassed
  have hcut' : q.cutOff = p.cutOff+(p.server.place.cutsOff c).toNat := hcut
  refine ⟨hbooks, by omega, fun hrun => ?_⟩
  have hheld : p.server.place.inLoops.toNat+(p.server.place.opensShadow c).toNat =
      q.server.place.inLoops.toNat+(p.server.place.cutsOff c).toNat+_ :=
    Server.held_step hstep hrun .shadow
  omega

theorem fits_of_reachable (hl : 5 ≤ limit) (h : Reachable (Holder.step limit) anyStep .start p) :
    Fits limit p := by
  refine h.invariant (P := Fits limit) ⟨fun _ => ?_, ?_, fun _ => ?_⟩ ?_
  · funext d
    cases d <;> rfl
  · exact hl
  · exact hl
  · intro p c q hp _ hstep
    exact fits_step hp hstep

/-- With every descriptor lost that can be lost, the books stay and the server is barred. -/
structure Exhausted (p q : Holder) : Prop where
  table : q.server.status = .running → q.table = q.books
  passed : q.passed = p.passed
  cutOff : q.cutOff = p.cutOff
  barred : q.server.Barred p.server.stream

theorem exhausted_step {r : Holder} (hlost : p.passed+p.cutOff+5 = limit) (hq : Exhausted p q)
    (h : q.step limit c = some r) : Exhausted p r := by
  have hbooks := books_step hq.table h
  obtain ⟨hallows, hrun, hstep, -, hpassed, hcut⟩ := step_cases h
  have hsize := size_eq (hq.table hrun)
  have hopen : q.server.place.opensFile c = false := by
    by_contra hopen
    rw [Bool.not_eq_false] at hopen
    obtain ⟨hlt, hbusy⟩ := room_of_fopen hallows (Or.inl hopen)
    have hserving : q.serving = 1 := by
      rw [serving, Place.holds, Place.holds, hbusy, hq.barred.inLoops]
      rfl
    have hpassed := hq.passed
    have hcut := hq.cutOff
    omega
  have hcutsOff := cutsOff_le q.server.place c
  rw [hq.barred.inLoops] at hcutsOff
  refine ⟨hbooks, ?_, ?_, hq.barred.step hstep hopen⟩
  · rw [hpassed, Place.loses, hopen]
    exact hq.passed
  · rw [hcut, Place.loses, Nat.le_zero.mp hcutsOff]
    exact hq.cutOff

/-- Every request whose file is opened costs a descriptor for good, and every transfer that is cut
off another one. With `limit` descriptors at most `limit-5` are lost in any run, so no more requests
are served; when they are lost, no request is ever served again, whatever it asks for. -/
theorem descriptors_run_out (hl : 5 ≤ limit) (h : Reachable (Holder.step limit) anyStep .start p) :
    (p.server.status = .running → p.size = 4+p.passed+p.cutOff+p.serving) ∧
    p.passed+p.cutOff+5 ≤ limit ∧
    (p.server.place = .accepting → p.server.status = .running → p.passed+p.cutOff+5 = limit →
      ∀ q, Reachable (Holder.step limit) anyStep p q →
        q.passed = p.passed ∧ q.server.Barred p.server.stream) := by
  have hfits := fits_of_reachable hl h
  refine ⟨fun hrun => size_eq (hfits.table hrun), hfits.lost, fun hplace hrun hlost q hq => ?_⟩
  have hstart : Exhausted p p :=
    ⟨hfits.table, rfl, rfl, Or.inl hplace, fun hne => absurd hplace hne, Or.inl rfl⟩
  have hq' : Exhausted p q := by
    refine hq.invariant (P := Exhausted p) hstart ?_
    intro q c r hq _ hstep
    exact exhausted_step hlost hq hstep
  exact ⟨hq'.passed, hq'.barred⟩

set_option maxRecDepth 4096 in
/-- With six descriptors the first `CHECK` takes the last one. -/
theorem descriptors_run_out_six :
    ∃ p, Reachable (Holder.step 6) anyStep .start p ∧ p.passed = 1 ∧
      ∀ q, Reachable (Holder.step 6) anyStep p q → q.passed = 1 ∧ q.server.Barred p.server.stream := by
  have hrun : ∃ p, Reachable (Holder.step 6) anyStep .start p ∧ p.server.place = .accepting ∧
      p.server.status = .running ∧ p.passed+p.cutOff+5 = 6 ∧ p.passed = 1 := by
    refine exists_reachable_of_replayIf [.accept true, .recv (some (ascii "CHECK f")) (ascii "0123456789"),
      .fopen (some (ascii "abc")), .fopen none] _ ?_
    decide
  obtain ⟨p, hp, hplace, hstatus, hlost, hone⟩ := hrun
  refine ⟨p, hp, hone, fun q hq => ?_⟩
  have h := (descriptors_run_out (by decide) hp).2.2 hplace hstatus hlost q hq
  exact ⟨h.1.trans hone, h.2⟩

end Holder

end NetTools.FTP
