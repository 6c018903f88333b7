import Esp32WebServers.System.Program

/-!
# The load that a benchmark client offers

`benchmark` sleeps behind the start of every session (`benchmark/iot_benchmark.py:67–75`,
`benchmark/connection_benchmark.py:48–52`), and a session behind each of its rows
(`iot_benchmark.py:112`, `connection_benchmark.py:88`). So the arguments of a client bound how
many sessions and requests it can have started by a time, whatever the server does.
-/

namespace Esp32WebServers.Program

open Base Benchmark

variable {σ ι : Type}

/-- The milliseconds that `benchmark` sleeps before it has started a number of sessions and one
more. -/
def slept (settings : Settings) : Nat → ℚ
  | 0 => 0
  | n + 1 => slept settings n + 1000 * (settings.sessionDelay (n + 1)).getD 0

/-- The sessions and requests of a program have come after the sleeps before them: those of
`benchmark` before the session, and those of the session before the request. -/
structure Paced (settings : Settings) (p : Program σ) : Prop where
  sessions : p.tasks.length ≤ settings.nrSessions
  started : ∀ index < p.tasks.length, slept settings index ≤ p.now
  requests : ∀ (index : Nat) (t : Timed σ) (n : Nat), p.tasks[index]? = some (.connected t) →
    t.link.requests.length = n + 1 →
    slept settings index + 1000 * settings.requestDelay * n ≤ p.now

/-! ### Sessions -/

/-- The invariant of a session: between its requests it sleeps. -/
structure Sleeps (settings : Settings) (now : ℚ) (t : Timed σ) : Prop where
  opened : t.opened ≤ now
  asked : t.link.session.phase ≠ .request → t.link.requests ≠ []
  asleep : t.link.session.phase = .request →
    t.opened + 1000 * settings.requestDelay * t.link.requests.length ≤ t.asleep
  sent : ∀ n : Nat, t.link.requests.length = n + 1 →
    t.opened + 1000 * settings.requestDelay * n ≤ now

section Sleeps

variable {settings : Settings} {server : Server σ ι} {pause : Pause Int ℚ} {now : ℚ}
  {t u : Timed σ}

/-- A session that goes on sleeps for the delay between requests. -/
theorem Sleeps.le_asleep (ht : Sleeps settings now t) (hphase : t.link.session.phase ≠ .request) :
    t.opened + 1000 * settings.requestDelay * t.link.requests.length ≤
      now + 1000 * settings.requestDelay := by
  obtain ⟨n, hn⟩ := Nat.exists_eq_succ_of_ne_zero
    (List.length_pos_iff.mpr (ht.asked hphase)).ne'
  have hsent := ht.sent n hn
  rw [hn, Nat.cast_succ, mul_add, mul_one]
  linarith

/-- Events keep a session sleeping between its requests. -/
theorem Sleeps.act (ht : Sleeps settings now t) {e : Link.Event ι}
    (hact : t.act settings server pause now e = some u) : Sleeps settings now u := by
  obtain ⟨hready, link, hstep, rfl⟩ := act_eq_some_iff.mp hact
  rcases Link.step_cases hstep with ⟨delay, rfl, hphase, rfl⟩ |
    ⟨around, count, result, rfl, -, -, -, -, -, rfl⟩ | ⟨heap, parsed, rfl, -, rfl⟩ |
    ⟨count, rfl, -, -, rfl⟩ | ⟨rfl, hphase, -, rfl⟩ | ⟨rfl, hphase, -, rfl⟩
  · refine ⟨ht.opened, fun _ ↦ ?_, fun hrequest ↦ ?_, fun n hn ↦ ?_⟩
    · exact List.append_ne_nil_of_right_ne_nil _ (List.cons_ne_nil _ _)
    · cases hrequest
    · -- The session is awake.
      have hawake : t.asleep ≤ now := of_decide_eq_true hready
      simp only [Timed.stamp, Link.request, List.length_append, List.length_singleton,
        Nat.add_right_cancel_iff] at hn
      rw [← hn]
      exact (ht.asleep hphase).trans hawake
  · exact ⟨ht.opened, ht.asked, ht.asleep, ht.sent⟩
  · exact ⟨ht.opened, ht.asked, ht.asleep, ht.sent⟩
  · exact ⟨ht.opened, ht.asked, ht.asleep, ht.sent⟩
  · have hread : t.link.session.phase ≠ .request := by
      intro hrequest
      cases hphase.symm.trans hrequest
    refine ⟨ht.opened, fun _ ↦ ht.asked hread, fun hrequest ↦ ?_, ht.sent⟩
    simp only [Timed.stamp]
    split
    · next hstays =>
      -- A session that stays does not go on to its next request.
      simp only [Timed.stamp, Link.withSession, Session.read, hstays] at hrequest
      split at hrequest
      · cases hrequest
      · cases hrequest
    · exact ht.le_asleep hread
  · have hstay : t.link.session.phase ≠ .request := by
      intro hrequest
      cases hphase.symm.trans hrequest
    exact ⟨ht.opened, fun _ ↦ ht.asked hstay, fun _ ↦ ht.le_asleep hstay, ht.sent⟩

/-- An event of a connection is not its opening. -/
theorem opened_of_act {e : Link.Event ι} (hact : t.act settings server pause now e = some u) :
    u.opened = t.opened := by
  obtain ⟨-, link, -, rfl⟩ := act_eq_some_iff.mp hact
  cases e with
  | request delay => rfl
  | receive around count => rfl
  | respond heap => rfl
  | arrive count => rfl
  | read => rfl
  | readOne => rfl

/-- In every program the sessions sleep between their requests. -/
theorem AllConnected.sleeps {p q : Program σ} {e : Event ι}
    (hp : p.AllConnected (Sleeps settings)) (h : Program.step settings server pause p e = some q) :
    q.AllConnected (Sleeps settings) := by
  refine hp.step (G := fun _ _ ↦ True) ?_ ?_ ?_ h ?_
  · intro now _
    refine ⟨le_refl _, fun h ↦ absurd rfl h, fun _ ↦ ?_, fun n hn ↦ absurd hn nofun⟩
    simp only [Timed.start, Link.start, List.length_nil, Nat.cast_zero, mul_zero, add_zero, le_refl]
  · intro now now' t ht hle
    exact ⟨ht.opened.trans hle, ht.asked, ht.asleep, fun n hn ↦ (ht.sent n hn).trans hle⟩
  · intro now t e u ht hact _
    exact ht.act hact
  · cases e with
    | session index event => exact fun _ _ ↦ trivial
    | _ => trivial

end Sleeps

/-! ### The whole client -/

/-- The invariant: no session is ahead of the sleeps before it. -/
structure OnTime (settings : Settings) (p : Program σ) : Prop where
  sessions : p.tasks.length ≤ settings.nrSessions
  due : ∀ due, p.due = some due → slept settings p.tasks.length ≤ due
  started : ∀ index < p.tasks.length, slept settings index ≤ p.now
  opened : ∀ (index : Nat) (t : Timed σ), p.tasks[index]? = some (.connected t) →
    slept settings index ≤ t.opened
  sleeps : p.AllConnected (Sleeps settings)

section OnTime

variable {settings : Settings} {server : Server σ ι} {pause : Pause Int ℚ} {p q : Program σ}

/-- A program that is on time is paced. -/
theorem OnTime.paced (hp : OnTime settings p) : Paced settings p := by
  refine ⟨hp.sessions, hp.started, fun index t n ht hn ↦ ?_⟩
  have hopened := hp.opened index t ht
  have hsent := (hp.sleeps.connected index t ht).sent n hn
  linarith

/-- A program is on time before its first session. -/
theorem onTime_start : OnTime settings (start settings : Program σ) := by
  refine ⟨Nat.zero_le _, ?_, fun index h ↦ absurd h (Nat.not_lt_zero _), nofun,
    allConnected_start _⟩
  rintro due hdue
  cases hdue
  exact le_refl _

/-- `benchmark` creates the next session behind its sleep. -/
theorem OnTime.create (hp : OnTime settings p) {due : ℚ}
    (hlt : p.tasks.length < settings.nrSessions) (hdue : p.due = some due) (hle : due ≤ p.now)
    (hsleeps : (p.create settings).AllConnected (Sleeps settings)) :
    OnTime settings (p.create settings) := by
  have hnow : slept settings p.tasks.length ≤ p.now := (hp.due due hdue).trans hle
  have hlength : (p.create settings).tasks.length = p.tasks.length + 1 := List.length_append
  refine ⟨?_, ?_, ?_, ?_, hsleeps⟩
  · rw [hlength]
    exact hlt
  · rintro next hnext
    obtain ⟨delay, hdelay, rfl⟩ := Option.map_eq_some_iff.mp hnext
    rw [hlength, slept, hdelay, Option.getD_some]
    linarith
  · intro index hindex
    rw [hlength] at hindex
    rcases Nat.lt_succ_iff_lt_or_eq.mp hindex with hold | rfl
    · exact hp.started index hold
    · exact hnow
  · intro index t ht
    exact hp.opened index t (getElem?_append_connecting ht)

/-- Events keep a program on time. -/
theorem OnTime.step {e : Event ι} (hp : OnTime settings p)
    (h : step settings server pause p e = some q) : OnTime settings q := by
  have hsleeps := hp.sleeps.sleeps h
  rcases step_cases h with ⟨span, rfl, hspan, rfl⟩ | ⟨due, rfl, hlt, hdue, hle, rfl⟩ |
    ⟨index, rfl, hindex, rfl⟩ | ⟨index, rfl, hindex, rfl⟩ |
    ⟨index, event, t, u, rfl, ht, hact, rfl⟩ | ⟨rfl, rfl⟩
  · refine ⟨hp.sessions, hp.due, fun index hindex ↦ ?_, hp.opened, hsleeps⟩
    exact (hp.started index hindex).trans (le_add_of_nonneg_right hspan)
  · exact hp.create hlt hdue hle hsleeps
  · have hlength : (p.connect server index).tasks.length = p.tasks.length := List.length_set
    refine ⟨hlength ▸ hp.sessions, hlength ▸ hp.due, hlength ▸ hp.started, ?_, hsleeps⟩
    intro i t ht
    rcases getElem?_set_eq_connected ht with ⟨rfl, hnew⟩ | ⟨-, hold⟩
    · cases hnew
      exact hp.started i (List.getElem?_eq_some_iff.mp hindex).1
    · exact hp.opened i t hold
  · have hlength : (p.fail index).tasks.length = p.tasks.length := List.length_set
    refine ⟨hlength ▸ hp.sessions, hlength ▸ hp.due, hlength ▸ hp.started, ?_, hsleeps⟩
    intro i t ht
    rcases getElem?_set_eq_connected ht with ⟨-, hnew⟩ | ⟨-, hold⟩
    · cases hnew
    · exact hp.opened i t hold
  · have hlength : (p.session settings index event t u).tasks.length = p.tasks.length :=
      List.length_set
    refine ⟨hlength ▸ hp.sessions, hlength ▸ hp.due, hlength ▸ hp.started, ?_, hsleeps⟩
    intro i s hs
    rcases getElem?_set_eq_connected hs with ⟨rfl, hnew⟩ | ⟨-, hold⟩
    · cases hnew
      rw [opened_of_act hact]
      exact hp.opened i t ht
    · exact hp.opened i s hold
  · exact ⟨hp.sessions, hp.due, hp.started, hp.opened, hsleeps⟩

end OnTime

/-- In every run of a client program, with any server and any order of events, at most
`NR_SESSIONS` sessions have been started, each of them behind all sleeps of `benchmark` before
it, and each request of a session behind those and the session's own sleeps before it. -/
theorem paced_always (settings : Settings) (server : Server σ ι) (pause : Pause Int ℚ)
    (events : List (Event ι)) :
    Step.Always (step settings server pause) (Paced settings) (start settings) events :=
  Step.always_of_invariant (I := OnTime settings) (fun _ hp ↦ hp.paced)
    (fun _ _ _ hp h ↦ hp.step h) onTime_start events

/-- The sleeps of the IoT benchmark: the long one behind every group of simultaneous sessions,
and the short one behind the others. -/
theorem slept_iot (nrSessions : Nat) {simultaneousSessions : Nat} (hpos : 0 < simultaneousSessions)
    (delayBetweenSessions delayBetweenSimultaneousSessions delayBetweenRequests : ℚ)
    (writeToCsv : Bool) (n : Nat) :
    slept (.iot nrSessions simultaneousSessions delayBetweenSessions
        delayBetweenSimultaneousSessions delayBetweenRequests writeToCsv) n =
      1000 * ((n / simultaneousSessions : Nat) * delayBetweenSessions +
        (n - n / simultaneousSessions : Nat) * delayBetweenSimultaneousSessions) := by
  rw [Nat.cast_sub (Nat.div_le_self _ _)]
  induction n with
  | zero => simp only [slept, Nat.zero_div, Nat.cast_zero, zero_mul, sub_zero, add_zero, mul_zero]
  | succ n ih =>
    have hzero : (simultaneousSessions : Int) ≠ 0 := Int.natCast_ne_zero.mpr hpos.ne'
    have hdvd : ((n + 1 : Nat) : Int) % simultaneousSessions = 0 ↔
        simultaneousSessions ∣ n + 1 := by
      rw [← Int.dvd_iff_emod_eq_zero, Int.natCast_dvd_natCast]
    rw [slept, ih]
    simp only [Settings.iot, if_neg hzero, hdvd, Nat.succ_div]
    split
    · rw [Option.getD_some]
      push_cast
      ring
    · rw [Option.getD_some]
      push_cast
      ring

end Esp32WebServers.Program
