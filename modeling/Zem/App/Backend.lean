import Zem.Db.Calls
import Zem.Server.Asking

/-!
# The server and its database

What `AppContext` puts together: the server with its sessions, and the calls of `GetPassword`.  A
handler that awaits the repository is a call there.  From its hop over the DB threads until it posts
its answer, the call runs on the strand of its session, where nothing else runs meanwhile.

* `Backend.step` — a step of the server, or of a call, or of both.
* `Takes`, `takes_of_step` — the steps that are taken, with what enables each of them.
* `BackendInv`, `backendInv_step` — a session waits exactly while one call of its own is not back,
  and has been answered what its own calls have met.
* `db_reaches` — a run of the backend is a run of the repository.
* `Oracle`, `server_run` — and it is a run of the server, with a repository that answers each
  session what its calls have met.
-/

set_option autoImplicit false

namespace Zem

/-! ## State -/

/-- `callers` names the session of each call; `answers` lists what the sessions have been answered,
    each answer with its call. -/
structure Backend (P : Type) where
  tcp : TCPServer Bytes DbOutcome
  db : Repository P
  callers : List Nat
  answers : Nat → List (Nat × DbOutcome)

inductive BackendAct where
  | tcp (act : TCPServerAct)
  | db (act : RepositoryAct)
  | answer (c : Nat)
  deriving DecidableEq, Repr

namespace Backend

variable {P : Type}

def init (pool : Option P) : Backend P :=
  { tcp := .init
    db := .init pool
    callers := []
    answers := fun _ => [] }

/-! ## Steps -/

/-- For the steps that read no answer. -/
def unanswered : Nat → Nat → Bytes → DbOutcome := fun _ _ _ => .nullPool

/-- Session `id` has gone on to `t` and asks: that is a call of `GetPassword`. -/
def call (s : Backend P) (id : Nat) (t : TCPServer Bytes DbOutcome) : Backend P :=
  { s with
    tcp := t
    db := { s.db with calls := s.db.calls ++ [.init] }
    callers := s.callers ++ [id] }

/-- Session `id` has gone on to `t`, where its handler asks now or does not. -/
def goOn (s : Backend P) (id : Nat) (t : TCPServer Bytes DbOutcome) : Backend P :=
  if t.asks id && !s.tcp.asks id then s.call id t else { s with tcp := t }

/-- Call `c` has come back to session `id`, which has gone on to `t` with what the call has met. -/
def comeBack (s : Backend P) (c id : Nat) (outcome : DbOutcome) (d : Repository P)
    (t : TCPServer Bytes DbOutcome) : Backend P :=
  { s with
    tcp := t
    db := d
    answers := Function.update s.answers id (s.answers id ++ [(c, outcome)]) }

/-- What call `c` has met. -/
def outcomeOf (s : Backend P) (c : Nat) : Option DbOutcome :=
  s.db.calls[c]?.bind GetPasswordCall.met

/-- A call of session `id` keeps the strand. -/
def keepsStrand (s : Backend P) (id : Nat) : Bool :=
  (s.callers.zip s.db.calls).any fun (caller, k) => caller = id && k.running

/-- The step would run a task of a session while a call of its own keeps the strand. -/
def isBlocked (s : Backend P) (act : TCPServerAct) : Bool := act.strand.any s.keepsStrand

/-- A step of the server, or of a call, or of both: a session asks, or is answered by the call of
    its own that comes back.  No task of a session runs while a call of its own keeps the strand;
    those of the others may, even where calls keep every io thread. -/
def step (soci : SlotPool P) (threads : Threads) (handlers : Handlers Bytes DbOutcome)
    (inputs : Nat → Bytes) (s : Backend P) : BackendAct → Option (Backend P)
  | .tcp (.session id act) =>
    if act = .answer ∨ s.isBlocked (.session id act) then none
    else (s.tcp.step handlers unanswered inputs (.session id act)).map (s.goOn id)
  | .tcp act =>
    if s.isBlocked act then none
    else (s.tcp.step handlers unanswered inputs act).map fun t => { s with tcp := t }
  | .db .call | .db (.resume _) => none
  | .db act => (s.db.step soci threads act).map fun d => { s with db := d }
  | .answer c =>
    s.callers[c]?.bind fun id => (s.outcomeOf c).bind fun outcome =>
      (s.db.step soci threads (.resume c)).bind fun d =>
        (s.tcp.step handlers (fun _ _ _ => outcome) inputs (.session id .answer)).map
          (s.comeBack c id outcome d)

/-- The steps that are taken, with what enables each of them. -/
inductive Takes (soci : SlotPool P) (threads : Threads) (handlers : Handlers Bytes DbOutcome)
    (inputs : Nat → Bytes) (s : Backend P) : BackendAct → Backend P → Prop where
  | serve {act : TCPServerAct} {t : TCPServer Bytes DbOutcome}
      (noSession : ∀ id act', act ≠ .session id act') (free : s.isBlocked act = false)
      (steps : s.tcp.step handlers unanswered inputs act = some t) :
      Takes soci threads handlers inputs s (.tcp act) { s with tcp := t }
  | session {id : Nat} {act : StrandAct} {t : TCPServer Bytes DbOutcome} (noAnswer : act ≠ .answer)
      (free : s.isBlocked (.session id act) = false)
      (steps : s.tcp.step handlers unanswered inputs (.session id act) = some t) :
      Takes soci threads handlers inputs s (.tcp (.session id act)) (s.goOn id t)
  | db {act : RepositoryAct} {d : Repository P} (noCall : act ≠ .call)
      (noResume : ∀ c, act ≠ .resume c) (steps : s.db.step soci threads act = some d) :
      Takes soci threads handlers inputs s (.db act) { s with db := d }
  | answer {c id : Nat} {outcome : DbOutcome} {d : Repository P} {t : TCPServer Bytes DbOutcome}
      (caller : s.callers[c]? = some id) (met : s.outcomeOf c = some outcome)
      (resumes : s.db.step soci threads (.resume c) = some d)
      (steps : s.tcp.step handlers (fun _ _ _ => outcome) inputs (.session id .answer) = some t) :
      Takes soci threads handlers inputs s (.answer c) (s.comeBack c id outcome d t)

variable {soci : SlotPool P} {threads : Threads} {handlers : Handlers Bytes DbOutcome}
  {inputs : Nat → Bytes}

theorem takes_of_step {s t : Backend P} {act : BackendAct}
    (h : step soci threads handlers inputs s act = some t) :
    Takes soci threads handlers inputs s act t := by
  cases act with
  | tcp act =>
    cases act with
    | session id act =>
      simp only [step] at h
      split at h
      · cases h
      · rename_i hact
        obtain ⟨t', ht, rfl⟩ := Option.map_eq_some_iff.mp h
        simp only [not_or, Bool.not_eq_true] at hact
        exact .session hact.1 hact.2 ht
    | server | visitDuring | signal =>
      simp only [step] at h
      split at h
      · cases h
      · rename_i hfree
        obtain ⟨t', ht, rfl⟩ := Option.map_eq_some_iff.mp h
        exact .serve (by simp) (by simpa using hfree) ht
  | db act =>
    cases act with
    | call => cases h
    | resume => cases h
    | enter | lease | timeout | query | giveBack =>
      obtain ⟨d, hd, rfl⟩ := Option.map_eq_some_iff.mp h
      exact .db (by simp) (by simp) hd
  | answer c =>
    simp only [step] at h
    obtain ⟨id, hid, h⟩ := Option.bind_eq_some_iff.mp h
    obtain ⟨outcome, hmet, h⟩ := Option.bind_eq_some_iff.mp h
    obtain ⟨d, hd, h⟩ := Option.bind_eq_some_iff.mp h
    obtain ⟨t', ht, rfl⟩ := Option.map_eq_some_iff.mp h
    exact .answer hid hmet hd ht

/-! ## Calls and sessions -/

/-- Call `c` is one of session `id`, and `p` holds of it. -/
def IsCall (s : Backend P) (c id : Nat) (p : GetPasswordCall → Prop) : Prop :=
  s.callers[c]? = some id ∧ ∃ k, s.db.calls[c]? = some k ∧ p k

/-- Call `c` of session `id` is not back. -/
def InFlight (s : Backend P) (c id : Nat) : Prop := s.IsCall c id fun k => k.stage ≠ .returned

/-- Call `x.1` of session `id` has come back, and has met `x.2`. -/
def Answered (s : Backend P) (id : Nat) (x : Nat × DbOutcome) : Prop :=
  s.IsCall x.1 id fun k => k.stage = .returned ∧ k.met = some x.2

structure BackendInv (s : Backend P) : Prop where
  tcp : TCPServer.TCPServerInv s.tcp
  callers : s.callers.length = s.db.calls.length
  asks : ∀ id, s.tcp.asks id = true ↔ ∃ c, s.InFlight c id
  single : ∀ c c' id, s.InFlight c id → s.InFlight c' id → c = c'
  answered : ∀ id x, x ∈ s.answers id ↔ s.Answered id x
  once : ∀ id, ((s.answers id).map Prod.fst).Nodup
  asked : ∀ id, (s.answers id).length = s.tcp.askedOf id

theorem backendInv_init (pool : Option P) : BackendInv (init pool) := by
  have hnone : ∀ c id p, ¬ (init pool : Backend P).IsCall c id p := fun _ _ _ h => by cases h.1
  refine ⟨TCPServer.tcpServerInv_init, rfl, fun id => ?_, fun c c' id h => ?_, fun id x => ?_,
    fun id => List.nodup_nil, fun id => rfl⟩
  · refine ⟨fun h => ?_, fun ⟨c, hc⟩ => absurd hc (hnone _ _ _)⟩
    cases h
  · exact absurd h (hnone _ _ _)
  · exact ⟨fun h => absurd h List.not_mem_nil, fun h => absurd h (hnone _ _ _)⟩

/-! ## One step -/

section

variable {s : Backend P} {id : Nat} {t : TCPServer Bytes DbOutcome}

/-- A step after which the same sessions wait as before it. -/
theorem BackendInv.serve (h : BackendInv s) (htcp : TCPServer.TCPServerInv t)
    (hsame : TCPServer.SameAsking s.tcp t) : BackendInv { s with tcp := t } := by
  refine ⟨htcp, h.callers, fun x => ?_, h.single, h.answered, h.once, fun x => ?_⟩
  · rw [hsame.1]
    exact h.asks x
  · rw [hsame.2]
    exact h.asked x

theorem isCall_call (hlen : s.callers.length = s.db.calls.length) {c x : Nat}
    {p : GetPasswordCall → Prop} :
    (s.call id t).IsCall c x p ↔ s.IsCall c x p ∨ c = s.callers.length ∧ x = id ∧ p .init := by
  simp only [IsCall, call, List.getElem?_append, hlen]
  split
  · rename_i hlt
    have hne : c ≠ s.db.calls.length := Nat.ne_of_lt hlt
    simp only [hne, false_and, or_false]
  · rename_i hle
    have hle := Nat.le_of_not_lt hle
    have hout : s.callers[c]? = none := List.getElem?_eq_none (hlen ▸ hle)
    cases hsub : c - s.db.calls.length with
    | zero =>
      have heq : c = s.db.calls.length := by omega
      simp [heq, eq_comm]
    | succ n =>
      have hne : c ≠ s.db.calls.length := by omega
      simp [hout, hne]

/-- A session that does not wait asks. -/
theorem BackendInv.call (h : BackendInv s) (htcp : TCPServer.TCPServerInv t)
    (hasked : t.askedOf = s.tcp.askedOf) (hother : ∀ x, x ≠ id → t.asks x = s.tcp.asks x)
    (hwas : s.tcp.asks id = false) (hasks : t.asks id = true) : BackendInv (s.call id t) := by
  have hflight : ∀ {c x}, (s.call id t).InFlight c x ↔
      s.InFlight c x ∨ c = s.callers.length ∧ x = id := by
    intro c x
    rw [InFlight, isCall_call h.callers]
    simp [InFlight, GetPasswordCall.init]
  have hnone : ∀ {c}, ¬ s.InFlight c id := by
    intro c hc
    rw [(h.asks id).mpr ⟨c, hc⟩] at hwas
    cases hwas
  refine ⟨htcp, ?_, fun x => ?_, fun c c' x hc hc' => ?_, fun x y => ?_, h.once, fun x => ?_⟩
  · simp [Backend.call, h.callers]
  · by_cases hx : x = id
    · subst hx
      exact ⟨fun _ => ⟨_, hflight.mpr (Or.inr ⟨rfl, rfl⟩)⟩, fun _ => hasks⟩
    · show t.asks x = true ↔ _
      rw [hother x hx, h.asks]
      exact exists_congr fun c => by rw [hflight]; simp [hx]
  · rcases hflight.mp hc with hold | ⟨hlast, hx⟩
    · rcases hflight.mp hc' with hold' | ⟨_, hx⟩
      · exact h.single c c' x hold hold'
      · exact absurd (hx ▸ hold) hnone
    · rcases hflight.mp hc' with hold' | ⟨hlast', _⟩
      · exact absurd (hx ▸ hold') hnone
      · rw [hlast, hlast']
  · rw [Answered, isCall_call h.callers]
    exact (h.answered x y).trans (by simp [Answered, GetPasswordCall.init])
  · exact (h.asked x).trans (congrFun hasked x).symm

/-- A call goes on. -/
theorem isCall_db {d : Repository P} {c : Nat} {k k' : GetPasswordCall}
    (hk : s.db.calls[c]? = some k) (hcalls : d.calls = s.db.calls.set c k') (c' x : Nat)
    (p : GetPasswordCall → Prop) :
    ({ s with db := d } : Backend P).IsCall c' x p ↔
      if c' = c then s.callers[c]? = some x ∧ p k' else s.IsCall c' x p := by
  rw [IsCall, Repository.getElem?_change hk hcalls]
  split
  · rename_i heq
    simp [heq]
  · rfl

theorem isCall_of_getElem {c : Nat} {k : GetPasswordCall} (hk : s.db.calls[c]? = some k) (x : Nat)
    (p : GetPasswordCall → Prop) : s.IsCall c x p ↔ s.callers[c]? = some x ∧ p k := by
  simp [IsCall, hk]

/-- A call that is not back, and is not back after the step either. -/
theorem isCall_same {d : Repository P} {c : Nat} {k k' : GetPasswordCall}
    (hk : s.db.calls[c]? = some k) (hcalls : d.calls = s.db.calls.set c k')
    {p : GetPasswordCall → Prop} (hp : p k ↔ p k') (c' x : Nat) :
    ({ s with db := d } : Backend P).IsCall c' x p ↔ s.IsCall c' x p := by
  rw [isCall_db hk hcalls]
  split
  · rename_i heq
    rw [heq, isCall_of_getElem hk, hp]
  · rfl

theorem BackendInv.db (h : BackendInv s) {act : RepositoryAct} {d : Repository P}
    (hcall : act ≠ .call) (hresume : ∀ c, act ≠ .resume c)
    (hstep : s.db.step soci threads act = some d) : BackendInv { s with db := d } := by
  obtain ⟨c, k, k', hk, hcalls, hgoes⟩ := Repository.goesOn_step hcall hstep
  have hwas := hgoes.notReturned hk
  have hnot : k'.stage ≠ .returned := fun hst => hresume c (hgoes.back.mp hst)
  have hflight : ∀ c x, ({ s with db := d } : Backend P).InFlight c x ↔ s.InFlight c x :=
    isCall_same hk hcalls (by simp [hwas, hnot])
  refine ⟨h.tcp, ?_, fun x => ?_, fun c c' x hc hc' => ?_, fun x y => ?_, h.once, h.asked⟩
  · rw [hcalls, List.length_set]
    exact h.callers
  · rw [h.asks]
    exact exists_congr fun c => (hflight c x).symm
  · exact h.single c c' x ((hflight c x).mp hc) ((hflight c' x).mp hc')
  · rw [h.answered]
    exact (isCall_same hk hcalls (by simp [hwas, hnot]) y.1 x).symm

/-- A call comes back, and answers its session. -/
theorem BackendInv.comeBack (h : BackendInv s) {c : Nat} {outcome : DbOutcome} {d : Repository P}
    (htcp : TCPServer.TCPServerInv t) (hcaller : s.callers[c]? = some id)
    (hmet : s.outcomeOf c = some outcome) (hd : s.db.step soci threads (.resume c) = some d)
    (hasks : t.asks = Function.update s.tcp.asks id false)
    (hasked : t.askedOf = Function.update s.tcp.askedOf id (s.tcp.askedOf id + 1)) :
    BackendInv (s.comeBack c id outcome d t) := by
  obtain ⟨k, hk, hready, hd⟩ := Repository.onCall_eq_some hd
  have hst : k.stage = .settled := by simpa using hready
  cases hd
  have hk' : k.met = some outcome := by simpa [outcomeOf, hk] using hmet
  have hnotBack : k.stage ≠ .returned := by simp [hst]
  have hcall := fun c' x p =>
    isCall_db hk (d := s.db.put c { k with stage := .returned }) rfl c' x p
  have hflight : s.InFlight c id := (isCall_of_getElem hk id _).mpr ⟨hcaller, hnotBack⟩
  have hflight' : ∀ c' x, (s.comeBack c id outcome (s.db.put c { k with stage := .returned })
      t).InFlight c' x ↔ c' ≠ c ∧ s.InFlight c' x := by
    intro c' x
    refine (hcall c' x _).trans ?_
    split
    · rename_i heq
      simp [heq]
    · rename_i hne
      simp [hne, InFlight]
  have hother : ∀ c' x, x ≠ id → s.InFlight c' x → c' ≠ c := by
    rintro c' x hx ⟨hc', _⟩ rfl
    rw [hcaller, Option.some.injEq] at hc'
    exact hx hc'.symm
  have hnone : ∀ x, x ∈ s.answers id → x.1 ≠ c := by
    rintro ⟨c', o⟩ hx rfl
    exact hnotBack ((isCall_of_getElem hk id _).mp ((h.answered id _).mp hx)).2.1
  refine ⟨htcp, ?_, fun x => ?_, fun c₁ c₂ x h₁ h₂ => ?_, fun x y => ?_, fun x => ?_, fun x => ?_⟩
  · exact h.callers.trans (List.length_set ..).symm
  · show t.asks x = true ↔ _
    rw [hasks, Function.update_apply]
    split
    · rename_i hx
      simp only [Bool.false_eq_true, false_iff, not_exists]
      intro c' hc'
      obtain ⟨hne, hold⟩ := (hflight' c' x).mp hc'
      exact hne (h.single c' c id (hx ▸ hold) hflight)
    · rename_i hx
      rw [h.asks]
      refine exists_congr fun c' => ?_
      rw [hflight']
      exact ⟨fun hc' => ⟨hother c' x hx hc', hc'⟩, And.right⟩
  · exact h.single c₁ c₂ x ((hflight' c₁ x).mp h₁).2 ((hflight' c₂ x).mp h₂).2
  · obtain ⟨c', o⟩ := y
    refine Iff.trans ?_ (hcall c' x _).symm
    show (c', o) ∈ Function.update s.answers id _ x ↔ _
    rw [Function.update_apply]
    by_cases hc : c' = c
    · subst hc
      rw [if_pos rfl, hcaller, Option.some.injEq]
      by_cases hx : x = id
      · subst hx
        have hold : (c', o) ∉ s.answers x := fun hm => hnone _ hm rfl
        simp [hold, hk', eq_comm]
      · rw [if_neg hx]
        refine ⟨fun hm => absurd ?_ hx, fun hx' => absurd hx'.1.symm hx⟩
        have hold := ((h.answered x _).mp hm).1
        rw [hcaller, Option.some.injEq] at hold
        exact hold.symm
    · rw [if_neg hc]
      refine Iff.trans ?_ (h.answered x (c', o))
      split
      · rename_i hx
        simp [hx, hc]
      · rfl
  · show ((Function.update s.answers id _ x).map Prod.fst).Nodup
    rw [Function.update_apply]
    split
    · rw [List.map_append, List.nodup_append]
      refine ⟨h.once id, List.nodup_singleton _, fun a ha b hb => ?_⟩
      obtain ⟨y, hy, rfl⟩ := List.mem_map.mp ha
      rw [List.mem_singleton.mp hb]
      exact hnone y hy
    · exact h.once x
  · show (Function.update s.answers id _ x).length = t.askedOf x
    rw [hasked, Function.update_apply, Function.update_apply]
    split
    · rw [List.length_append, h.asked]
      rfl
    · exact h.asked x

end

theorem backendInv_step (s : Backend P) (act : BackendAct) (t : Backend P) (h : BackendInv s)
    (hstep : step soci threads handlers inputs s act = some t) : BackendInv t := by
  cases takes_of_step hstep with
  | serve hact _ hserve =>
    exact h.serve (TCPServer.tcpServerInv_step _ _ _ _ _ _ h.tcp hserve)
      (TCPServer.serve_asking h.tcp hact hserve)
  | @session id act u hact _ hrun =>
    have htcp := TCPServer.tcpServerInv_step _ _ _ _ _ _ h.tcp hrun
    obtain ⟨hasked, hother, hkeep⟩ := TCPServer.session_asking hact hrun
    unfold goOn
    split
    · rename_i hnew
      simp only [Bool.and_eq_true, Bool.not_eq_true'] at hnew
      exact h.call htcp hasked hother hnew.2 hnew.1
    · rename_i hnew
      refine h.serve htcp ⟨funext fun x => ?_, hasked⟩
      by_cases hx : x = id
      · subst hx
        cases hs : s.tcp.asks x with
        | true => exact hkeep hs
        | false => simpa [hs] using hnew
      · exact hother x hx
  | db hcall hresume hd => exact h.db hcall hresume hd
  | answer hcaller hmet hd hanswer =>
    have htcp := TCPServer.tcpServerInv_step _ _ _ _ _ _ h.tcp hanswer
    obtain ⟨_, _, hasks, hasked⟩ := TCPServer.answer_asking hanswer
    exact h.comeBack htcp hcaller hmet hd hasks hasked

theorem backendInv_run {pool : Option P} {acts : List BackendAct} {s : Backend P}
    (h : Runs.exec (step soci threads handlers inputs) (init pool) acts = some s) : BackendInv s :=
  Runs.exec_invariant backendInv_step (backendInv_init pool) h

/-! ## The parts of a run -/

/-- **A run of the backend is a run of the repository.** -/
theorem db_reaches {pool : Option P} {acts : List BackendAct} {s : Backend P}
    (h : Runs.exec (step soci threads handlers inputs) (init pool) acts = some s) :
    Runs.Reaches (Repository.step soci threads) (.init pool) s.db := by
  refine Runs.exec_simulation (I := fun _ : Backend P => True) (f := Backend.db)
    (fun _ _ _ _ _ => trivial) (fun s act t _ hstep => ?_) trivial h
  cases takes_of_step hstep with
  | serve => exact .refl _
  | session =>
    unfold goOn
    split
    · exact .single (a := .call) rfl
    · exact .refl _
  | db _ _ hd => exact .single hd
  | answer _ _ hd => exact .single hd

theorem leaseInv_run (hsoci : soci.Lawful) {pool : Option P}
    (hfresh : ∀ p, pool = some p → soci.leased p = ∅) {acts : List BackendAct} {s : Backend P}
    (h : Runs.exec (step soci threads handlers inputs) (init pool) acts = some s) :
    Repository.LeaseInv soci threads s.db := by
  obtain ⟨acts', hrun⟩ := db_reaches h
  exact Repository.leaseInv_run hsoci hfresh hrun

/-- What the answers say of what the repository answers to the next question of each session. -/
def Oracle (s : Backend P) (repo : Nat → Nat → Bytes → DbOutcome) : Prop :=
  ∀ id n x, (s.answers id)[n]? = some x → ∀ q, repo id n q = x.2

/-- The steps of the sessions meet `Q`. -/
def BackendAct.Meets (Q : StrandAct → Prop) : BackendAct → Prop
  | .tcp act => TCPServer.TCPServerAct.Meets Q act
  | .db _ | .answer _ => True

theorem goOn_same (s : Backend P) (id : Nat) (t : TCPServer Bytes DbOutcome) :
    (s.goOn id t).tcp = t ∧ (s.goOn id t).answers = s.answers := by
  unfold goOn
  split <;> exact ⟨rfl, rfl⟩

/-- What has been answered stays so. -/
theorem Oracle.comeBack {s : Backend P} {repo : Nat → Nat → Bytes → DbOutcome} {c id : Nat}
    {outcome : DbOutcome} {d : Repository P} {t : TCPServer Bytes DbOutcome}
    (h : Oracle (s.comeBack c id outcome d t) repo) :
    Oracle s repo ∧ ∀ q, repo id (s.answers id).length q = outcome := by
  constructor
  · intro x n y hy
    refine h x n y ?_
    simp only [Backend.comeBack, Function.update_apply]
    split
    · rename_i hx
      rw [hx] at hy
      obtain ⟨hlt, _⟩ := List.getElem?_eq_some_iff.mp hy
      rw [List.getElem?_append_left hlt, hy]
    · exact hy
  · refine h id _ (c, outcome) ?_
    simp only [Backend.comeBack, Function.update_self, List.getElem?_concat_length]

/-- The server has run on its own with every repository that gives the answers of the calls. -/
def ServerRuns (Q : StrandAct → Prop) (handlers : Handlers Bytes DbOutcome) (inputs : Nat → Bytes)
    (s : Backend P) : Prop :=
  ∀ repo, Oracle s repo → ∃ acts, (∀ act ∈ acts, TCPServer.TCPServerAct.Meets Q act) ∧
    Runs.exec (TCPServer.step handlers repo inputs) .init acts = some s.tcp

theorem ServerRuns.extend {Q : StrandAct → Prop} {s t : Backend P}
    (h : ServerRuns Q handlers inputs s) (act : TCPServerAct)
    (hact : TCPServer.TCPServerAct.Meets Q act) (hstep : ∀ repo, Oracle t repo → Oracle s repo ∧
      s.tcp.step handlers repo inputs act = some t.tcp) : ServerRuns Q handlers inputs t := by
  intro repo hrepo
  obtain ⟨hold, hlast⟩ := hstep repo hrepo
  obtain ⟨acts, hacts, hrun⟩ := h repo hold
  refine ⟨acts ++ [act], fun a ha => ?_, Runs.exec_trans hrun (Runs.exec_single hlast)⟩
  rcases List.mem_append.mp ha with ha | ha
  · exact hacts a ha
  · exact List.mem_singleton.mp ha ▸ hact

theorem serverRuns_step {Q : StrandAct → Prop} (hQ : Q .answer) (s : Backend P) (act : BackendAct)
    (t : Backend P) (h : BackendInv s ∧ ServerRuns Q handlers inputs s)
    (hact : BackendAct.Meets Q act) (hstep : step soci threads handlers inputs s act = some t) :
    BackendInv t ∧ ServerRuns Q handlers inputs t := by
  refine ⟨backendInv_step s act t h.1 hstep, ?_⟩
  obtain ⟨hinv, hruns⟩ := h
  cases takes_of_step hstep with
  | serve hno _ hserve =>
    refine hruns.extend _ hact fun repo hrepo => ⟨hrepo, ?_⟩
    rw [TCPServer.step_unasked unanswered fun id => hno id .answer, hserve]
  | @session id act u hno _ hrun =>
    obtain ⟨htcp, hsame⟩ := goOn_same s id u
    refine hruns.extend (.session id act) hact fun repo hrepo => ⟨?_, ?_⟩
    · rw [Oracle, hsame] at hrepo
      exact hrepo
    · rw [htcp, TCPServer.step_unasked unanswered (fun x hx => by cases hx; exact hno rfl), hrun]
  | db => exact hruns
  | @answer c id outcome d u _ _ _ hanswer =>
    refine hruns.extend (.session id .answer) hQ fun repo hrepo => ?_
    obtain ⟨hold, hlast⟩ := Oracle.comeBack hrepo
    refine ⟨hold, (TCPServer.answer_asking hanswer).1 repo ?_⟩
    rw [← hinv.asked id]
    exact hlast

/-- **A run of the backend is a run of the server**, with a repository that answers each session
    what the calls of its own have met. -/
theorem server_run {Q : StrandAct → Prop} (hQ : Q .answer) {pool : Option P}
    {acts : List BackendAct} {s : Backend P} (hacts : ∀ act ∈ acts, BackendAct.Meets Q act)
    (h : Runs.exec (step soci threads handlers inputs) (init pool) acts = some s) :
    ServerRuns Q handlers inputs s := by
  have hinit : ServerRuns Q handlers inputs (init pool) := fun _ _ =>
    ⟨[], fun _ ha => absurd ha List.not_mem_nil, rfl⟩
  exact (Runs.exec_invariant_of (serverRuns_step hQ) ⟨backendInv_init pool, hinit⟩ hacts h).2

/-- The repository of session `id`, after the run. -/
def repoOf (s : Backend P) (id n : Nat) (_ : Bytes) : DbOutcome :=
  (s.answers id)[n]?.elim .nullPool Prod.snd

theorem oracle_repoOf (s : Backend P) : Oracle s s.repoOf := by
  intro id n x hx q
  rw [repoOf, hx, Option.elim_some]

end Backend

end Zem
