import Zem.Session.Heartbeat

/-!
# Heartbeat: the idle bound and the single probe

* `HbState.answered`, `unanswered` — the pings up to the last reception, and those after it.
* `IdleInv`, `idleInv_step` — a wait begins below `HardIdle`, and at most one ping is unanswered.
* `answered_step` — only a reception answers a ping.
* `idle_bound` — how long an open session can be idle, when one is disconnected, and how many
  pings it is sent in between.
-/

set_option autoImplicit false

namespace Zem

open TCPSessionTimeout

namespace HbState

/-- The pings sent up to the last reception. -/
def answered (s : HbState) : Nat := s.pings.countP fun p => decide (p ≤ s.lastRx)

/-- The pings sent after the last reception. -/
def unanswered (s : HbState) : Nat := s.pings.countP fun p => decide (s.lastRx < p)

theorem answered_add_unanswered (s : HbState) :
    s.answered + s.unanswered = s.pings.length := by
  have hnot : ∀ p, (!decide (p ≤ s.lastRx)) = decide (s.lastRx < p) := by
    intro p
    by_cases h : p ≤ s.lastRx
    · simp [h]
    · simp [h, Nat.not_le.mp h]
  rw [List.length_eq_countP_add_countP fun p => decide (p ≤ s.lastRx)]
  simp only [answered, unanswered, decide_eq_true_eq, ← decide_not, ← hnot]

/-- The coroutine has run without a call. -/
theorem resumed_quiet (s : HbState) (t jitter : Nat) (w : Option HbWait) :
    s.resumed t jitter ([], w) = { s with
      now := t
      phase := match w with
        | none => .finished
        | some w => .waiting (arm t jitter w) } := by
  cases w <;> rfl

end HbState

/-! ## The invariant -/

/-- The coroutine ends only with the session, a wait begins below `HardIdle`, no `Shutdown` for
    idleness comes before it, and at most one ping is unanswered. -/
structure IdleInv (s : HbState) : Prop where
  hb : HbInv s
  running : s.isClosed = false → s.phase ≠ .finished
  checked : ∀ timer, s.phase = .waiting timer → timer.armed < s.lastRx + hardIdle
  disconnects : ∀ d ∈ s.disconnects, d.lastRx + hardIdle ≤ d.time
  single : s.unanswered ≤ 1

theorem idleInv_init : IdleInv .init := by
  refine ⟨hbInv_init, fun _ h => ?_, fun _ h => ?_, fun d hd => ?_, Nat.zero_le 1⟩
  · cases h
  · cases h
  · cases hd

theorem unanswered_receive {s : HbState} (h : HbInv s) {t : Nat} (ht : s.now ≤ t) :
    HbState.unanswered { s with now := t, lastRx := t } = 0 := by
  unfold HbState.unanswered
  rw [List.countP_eq_zero]
  intro p hp
  have := h.pinged p hp
  simp only [decide_eq_true_eq, Nat.not_lt]
  omega

/-- A check of the interval that finds the session idle below `HardIdle` follows no ping since the
    last reception. -/
theorem unanswered_interval {s : HbState} (h : HbInv s) {timer : HbTimer}
    (hph : s.phase = .waiting timer) (hw : timer.wait = .interval)
    (hlt : timer.expiry - s.lastRx < hardIdle) : s.unanswered = 0 := by
  obtain ⟨hge, _, hold, _⟩ := (h.timer timer hph).interval hw
  unfold HbState.unanswered
  rw [List.countP_eq_zero]
  intro p hp
  simp only [decide_eq_true_eq, Nat.not_lt]
  by_contra hnot
  have hspaced := h.spaced p hp (Nat.not_le.mp hnot)
  have hgrace := hold p hp
  simp only [softIdle, graceWait, interval, hardIdle, seconds] at hspaced hgrace hge hlt
  omega

/-- The coroutine is back at the top of its loop, below `HardIdle`. -/
theorem IdleInv.top {s : HbState} (h : IdleInv s) {t jitter : Nat}
    (hb : HbInv (s.resumed t jitter ([], heartbeatTop s.isClosed)))
    (ht : t < s.lastRx + hardIdle) :
    IdleInv (s.resumed t jitter ([], heartbeatTop s.isClosed)) := by
  rw [HbState.resumed_quiet] at hb ⊢
  refine ⟨hb, fun ho hfin => ?_, fun timer hph => ?_, h.disconnects, h.single⟩
  · have ho : s.isClosed = false := ho
    rw [ho] at hfin
    cases hfin
  · cases hc : s.isClosed with
    | true =>
      rw [hc] at hph
      cases hph
    | false =>
      rw [hc] at hph
      cases hph
      exact ht

/-- The coroutine sends the one ping and waits for the answer. -/
theorem IdleInv.ping {s : HbState} (h : IdleInv s) {t jitter : Nat}
    (hb : HbInv (s.resumed t jitter ([.sendPing], some .grace)))
    (ht : t < s.lastRx + hardIdle) (hnone : s.unanswered = 0) :
    IdleInv (s.resumed t jitter ([.sendPing], some .grace)) := by
  refine ⟨hb, fun _ hfin => ?_, fun timer hph => ?_, h.disconnects, ?_⟩
  · cases hfin
  · cases hph
    exact ht
  · have hadd : HbState.unanswered (s.resumed t jitter ([.sendPing], some .grace)) =
        s.unanswered + [t].countP fun p => decide (s.lastRx < p) := List.countP_append
    rw [hadd, hnone, Nat.zero_add]
    exact List.countP_le_length

/-- **Every event preserves the invariant.** -/
theorem idleInv_step (s : HbState) (act : HbAct) (s' : HbState) (h : IdleInv s)
    (hstep : s.step act = some s') : IdleInv s' := by
  have hb := hbInv_step s act s' h.hb hstep
  rcases HbState.step_cases hstep with ⟨t, _, hp, rfl⟩ | ⟨jitter, _, _, hph, rfl⟩ |
    ⟨jitter, _, timer, _, hph, rfl⟩ | ⟨t, _, _, rfl⟩ | ⟨t, _, _, hc, rfl⟩
  · refine ⟨hb, h.running, fun timer hph => ?_, h.disconnects, ?_⟩
    · have hchecked := h.checked timer hph
      have hrx := h.hb.rx
      have hle := hp.1
      show timer.armed < t + hardIdle
      omega
    · rw [unanswered_receive h.hb hp.1]
      exact Nat.zero_le 1
  · obtain ⟨hnow, _⟩ := h.hb.start hph
    refine h.top hb ?_
    rw [hnow]
    exact Nat.lt_of_lt_of_le (by decide) (Nat.le_add_left hardIdle _)
  · have hdue := (h.hb.timer timer hph).due
    have hrx := h.hb.rx
    rcases heartbeatResume_cases s.isClosed timer.wait (timer.expiry - s.lastRx) with
      ⟨hhard, hr⟩ | ⟨hw, _, hlt, hr⟩ | ⟨hlt, _, hr⟩
    · rw [hr] at hb ⊢
      refine ⟨hb, fun ho => ?_, fun _ hph' => ?_, fun d hd => ?_, h.single⟩
      · cases ho
      · cases hph'
      · rcases List.mem_append.mp hd with hd | hd
        · exact h.disconnects d hd
        · rw [List.mem_singleton.mp hd]
          show s.lastRx + hardIdle ≤ timer.expiry
          omega
    · rw [hr] at hb ⊢
      exact h.ping hb (by omega) (unanswered_interval h.hb hph hw hlt)
    · rw [hr] at hb ⊢
      exact h.top hb (by omega)
  · refine ⟨hb, fun ho => ?_, h.checked, h.disconnects, h.single⟩
    cases ho
  · refine ⟨hb, fun ho => ?_, fun _ hph => ?_, h.disconnects, h.single⟩
    · have ho : s.isClosed = false := ho
      rw [ho] at hc
      cases hc
    · cases hph

theorem idleInv_run {acts : List HbAct} {s : HbState}
    (h : Runs.exec HbState.step .init acts = some s) : IdleInv s :=
  Runs.exec_invariant idleInv_step idleInv_init h

/-! ## Pings between two receptions -/

/-- The event is no reception. -/
def HbAct.Silent (act : HbAct) : Prop := ∀ t, act ≠ .receive t

/-- **Only a reception answers a ping.** -/
theorem answered_step (s : HbState) (act : HbAct) (s' : HbState) (hact : act.Silent)
    (hstep : s.step act = some s') : s'.answered = s.answered := by
  rcases HbState.step_cases hstep with ⟨t, rfl, _⟩ | ⟨jitter, _, _, _, rfl⟩ |
    ⟨jitter, _, timer, _, hph, rfl⟩ | ⟨t, _, _, rfl⟩ | ⟨t, _, _, _, rfl⟩
  · exact absurd rfl (hact t)
  · rw [HbState.resumed_quiet]
    rfl
  · rcases heartbeatResume_cases s.isClosed timer.wait (timer.expiry - s.lastRx) with
      ⟨_, hr⟩ | ⟨_, hsoft, _, hr⟩ | ⟨_, _, hr⟩
    · rw [hr]
      rfl
    · -- the new ping comes at least `SoftIdle` after the last reception
      have hadd : HbState.answered (s.resumed timer.expiry jitter ([.sendPing], some .grace)) =
          s.answered + [timer.expiry].countP fun p => decide (p ≤ s.lastRx) := List.countP_append
      have hlate : ¬ timer.expiry ≤ s.lastRx := by
        simp only [softIdle, seconds] at hsoft
        omega
      rw [hr, hadd]
      simp [hlate]
    · rw [hr, HbState.resumed_quiet]
      rfl
  · rfl
  · rfl

/-- A stretch of a run without a reception sends at most one ping. -/
theorem pings_silent {acts : List HbAct} {s s' : HbState} (hs : IdleInv s)
    (hacts : ∀ act ∈ acts, act.Silent) (h : Runs.exec HbState.step s acts = some s') :
    s'.pings.length ≤ s.pings.length + 1 := by
  have hkeep : IdleInv s' ∧ s'.answered = s.answered :=
    Runs.exec_invariant_of (I := fun u => IdleInv u ∧ u.answered = s.answered)
      (fun u act u' hu hact hstep => ⟨idleInv_step u act u' hu.1 hstep,
        (answered_step u act u' hact hstep).trans hu.2⟩) ⟨hs, rfl⟩ hacts h
  have hs' := s'.answered_add_unanswered
  have hs := s.answered_add_unanswered
  have hone := hkeep.1.single
  have hans := hkeep.2
  omega

/-! ## Result -/

/-- **Idle bound and single probe.**  After every run, an open session has been idle for less than
    `HardIdle` and one longest interval at every instant up to the next event; every `Shutdown`
    for idleness came at `HardIdle` or later after the last reception; and until the next reception
    at most one ping is sent. -/
theorem idle_bound {acts : List HbAct} {s : HbState}
    (h : Runs.exec HbState.step .init acts = some s) :
    (s.isClosed = false → ∀ t, s.Passes t →
      t - s.lastRx < hardIdle + interval + milliseconds maxJitter) ∧
    (∀ d ∈ s.disconnects, hardIdle ≤ d.time - d.lastRx) ∧
    (∀ acts' s', (∀ act ∈ acts', act.Silent) → Runs.exec HbState.step s acts' = some s' →
      s'.pings.length ≤ s.pings.length + 1) := by
  have hinv := idleInv_run h
  refine ⟨fun ho t ht => ?_, fun d hd => ?_, fun acts' s' hacts h' => pings_silent hinv hacts h'⟩
  · obtain ⟨hle, hlimit⟩ := ht
    cases hph : s.phase with
    | start =>
      rw [hph] at hlimit
      have hlimit : t = s.now := hlimit
      rw [hlimit, (hinv.hb.start hph).1, Nat.zero_sub]
      decide
    | finished => exact absurd hph (hinv.running ho)
    | waiting timer =>
      rw [hph] at hlimit
      have hlimit : t ≤ timer.expiry := hlimit
      have hchecked := hinv.checked timer hph
      have hti := hinv.hb.timer timer hph
      have hpos : 0 < hardIdle := by decide
      cases hw : timer.wait with
      | interval =>
        obtain ⟨_, hhigh, _⟩ := hti.interval hw
        omega
      | grace =>
        obtain ⟨hexp, _⟩ := hti.grace hw
        have : graceWait < interval + milliseconds maxJitter := by decide
        omega
  · have := hinv.disconnects d hd
    omega

/-- The rule at a session that is idle for 105.5 s less a nanosecond, and still open: the checks
    find 3.9, 34.4 and 64.9 s of idle time, and the one after the grace wait 74.9 s. -/
theorem idle_bound_longest :
    ∃ s, Runs.exec HbState.step .init [.run 0, .receive (seconds 26 + 1), .run 500, .run 500,
        .run 0, .run 500] = some s ∧
      s.isClosed = false ∧ s.pings = [seconds 91] ∧
      s.Passes (milliseconds 131500) ∧ milliseconds 131500 - s.lastRx = milliseconds 105500 - 1 ∧
      milliseconds 131500 - s.lastRx < hardIdle + interval + milliseconds maxJitter := by
  refine ⟨_, rfl, rfl, rfl, by decide, rfl, ?_⟩
  exact (idle_bound (show Runs.exec HbState.step .init [.run 0, .receive (seconds 26 + 1),
    .run 500, .run 500, .run 0, .run 500] = some _ from rfl)).1 rfl _ (by decide)

end Zem
