import Esp32WebServers.System.Program

/-!
# The CSV file of a benchmark

All sessions of a client append their rows to one file (`benchmark/iot_benchmark.py:110`,
`131–137`; `benchmark/connection_benchmark.py:83`, `107–113`), in the order in which their reads
return. At any time the file can be read back: it has the header and one record for every row,
and the records with a session's number are the rows of that session in their order, whatever
the order of events and however the responses are cut.
-/

namespace Esp32WebServers.Program

open Base Benchmark

variable {σ ι : Type}

/-- The fields of the record for a row of the session with a number. -/
def fields (sessionNr : Nat) (row : Int × Bytes) : List Bytes :=
  [decimal sessionNr, decimalInt row.1, [], decimal sessionNr, row.2]

/-- The records with the number of a session. -/
def ofNumber (sessionNr : Nat) (records : List (List Bytes)) : List (List Bytes) :=
  records.filter fun record ↦ record.head? == some (decimal sessionNr)

/-- Records that are the rows of the sessions: those with a session's number are its rows, in
their order, and there are no others. -/
structure Records (p : Program σ) (records : List (List Bytes)) : Prop where
  session : ∀ (index : Nat) (t : Timed σ), p.tasks[index]? = some (.connected t) →
    ofNumber (index + 1) records = t.rows.map (fields (index + 1))
  only : ∀ record ∈ records, ∃ (index : Nat) (t : Timed σ) (row : Int × Bytes),
    p.tasks[index]? = some (.connected t) ∧ row ∈ t.rows ∧ record = fields (index + 1) row

/-- Reading the file gives the header and records that are the rows of the sessions. Without
`WRITE_TO_CSV` there is nothing to read. -/
def ReadsBack (settings : Settings) (p : Program σ) : Prop :=
  ∃ records, Records p records ∧
    Csv.read p.file = some (if settings.writeToCsv then header :: records else [])

section Append

/-- A record has the number of its session, and no other. -/
theorem ofNumber_append (nr sessionNr : Nat) (records : List (List Bytes)) (row : Int × Bytes) :
    ofNumber nr (records ++ [fields sessionNr row]) =
      ofNumber nr records ++ if nr = sessionNr then [fields sessionNr row] else [] := by
  have hhead : (fields sessionNr row).head? = some (decimal sessionNr) := rfl
  rw [ofNumber, List.filter_append]
  split
  · next heq =>
    rw [List.filter_singleton, hhead, heq, beq_self_eq_true]
    rfl
  · next hne =>
    have hdecimal : (some (decimal sessionNr) == some (decimal nr)) = false := by
      rw [beq_eq_false_iff_ne, ne_eq, Option.some.injEq, decimal_inj]
      exact fun h ↦ hne h.symm
    rw [List.filter_singleton, hhead, hdecimal]
    rfl

variable {p : Program σ} {records : List (List Bytes)}

/-- A number without a session has no records. -/
theorem Records.ofNumber_eq_nil (hp : Records p records) {index : Nat}
    (hindex : ∀ t, p.tasks[index]? ≠ some (.connected t)) : ofNumber (index + 1) records = [] := by
  rw [ofNumber, List.filter_eq_nil_iff]
  intro record hrecord
  obtain ⟨i, t, row, ht, -, rfl⟩ := hp.only record hrecord
  rw [fields, List.head?_cons, beq_iff_eq, Option.some.injEq, decimal_inj]
  intro hnumber
  obtain rfl : i = index := by omega
  exact hindex t ht

/-- A task that has no session, and that changes to a session without rows or to none, leaves
the records as they are. -/
theorem Records.set (hp : Records p records) (index : Nat) {x : SessionTask σ}
    (hindex : ∀ t, p.tasks[index]? ≠ some (.connected t))
    (hx : ∀ t, x = .connected t → t.rows = []) {q : Program σ}
    (hq : q.tasks = p.tasks.set index x) : Records q records := by
  constructor
  · intro i t ht
    rw [hq] at ht
    rcases getElem?_set_eq_connected ht with ⟨rfl, hnew⟩ | ⟨-, hold⟩
    · rw [hp.ofNumber_eq_nil hindex, hx t hnew, List.map_nil]
    · exact hp.session i t hold
  · intro record hrecord
    obtain ⟨i, t, row, ht, hrow, hfields⟩ := hp.only record hrecord
    refine ⟨i, t, row, ?_, hrow, hfields⟩
    have hne : index ≠ i := by
      rintro rfl
      exact hindex t ht
    rw [hq, List.getElem?_set_ne hne, ht]

/-- A session that goes on adds the record of its row, where it has one. -/
theorem Records.session_act (hp : Records p records) {index : Nat} {t u : Timed σ}
    (ht : p.tasks[index]? = some (.connected t)) {row : Option (Int × Bytes)}
    (hu : u.rows = t.rows ++ row.toList) {q : Program σ}
    (hq : q.tasks = p.tasks.set index (.connected u)) :
    Records q (records ++ row.toList.map (fields (index + 1))) := by
  have hlt := (List.getElem?_eq_some_iff.mp ht).1
  have hnew : q.tasks[index]? = some (.connected u) := by
    rw [hq, List.getElem?_set_self hlt]
  constructor
  · intro i s hs
    have hnumbers : ofNumber (i + 1) (records ++ row.toList.map (fields (index + 1))) =
        ofNumber (i + 1) records ++
          if i = index then row.toList.map (fields (index + 1)) else [] := by
      cases row with
      | none =>
        rw [Option.toList_none, List.map_nil, List.append_nil, ite_self, List.append_nil]
      | some row =>
        rw [Option.toList_some, List.map_singleton, ofNumber_append]
        simp only [Nat.add_right_cancel_iff]
    rw [hnumbers]
    rw [hq] at hs
    rcases getElem?_set_eq_connected hs with ⟨rfl, hsu⟩ | ⟨hne, hold⟩
    · cases hsu
      rw [if_pos rfl, hp.session i t ht, hu, List.map_append]
    · rw [if_neg hne, List.append_nil, hp.session i s hold]
  · intro record hrecord
    rcases List.mem_append.mp hrecord with hold | hnewRecord
    · obtain ⟨i, s, r, hs, hr, hfields⟩ := hp.only record hold
      by_cases hi : index = i
      · subst hi
        cases Option.some.inj (ht.symm.trans hs)
        refine ⟨index, u, r, hnew, ?_, hfields⟩
        rw [hu]
        exact List.mem_append_left _ hr
      · exact ⟨i, s, r, by rw [hq, List.getElem?_set_ne hi, hs], hr, hfields⟩
    · obtain ⟨r, hr, rfl⟩ := List.mem_map.mp hnewRecord
      refine ⟨index, u, r, hnew, ?_, rfl⟩
      rw [hu]
      exact List.mem_append_right _ hr

end Append

/-- The invariant: the file is the text of the header and of such records. -/
def Logged (settings : Settings) (p : Program σ) : Prop :=
  ∃ records, Records p records ∧
    p.file = if settings.writeToCsv then (header :: records).flatMap Csv.writeRow else []

section Logged

variable {settings : Settings} {server : Server σ ι} {pause : Pause Int ℚ} {p q : Program σ}

/-- A file that is the text of its records is read back. -/
theorem Logged.readsBack (hp : Logged settings p) : ReadsBack settings p := by
  obtain ⟨records, hrecords, hfile⟩ := hp
  refine ⟨records, hrecords, ?_⟩
  rw [hfile]
  split
  · exact Csv.read_writeRows _
  · exact Csv.read_writeRows []

/-- The file has its header before the first session. -/
theorem logged_start : Logged settings (start settings : Program σ) := by
  refine ⟨[], ⟨nofun, List.forall_mem_nil _⟩, ?_⟩
  simp only [start, csvAppend]
  split
  · rw [List.nil_append, List.flatMap_singleton, header]
  · rfl

/-- A row that is appended is the text of its record. -/
theorem append_eq (file : Bytes) (index : Nat) (row : Option (Int × Bytes)) :
    append settings file index row = file ++ if settings.writeToCsv then
      (row.toList.map (fields (index + 1))).flatMap Csv.writeRow else [] := by
  cases row with
  | none =>
    rw [append, Option.toList_none, List.map_nil, List.flatMap_nil, ite_self, List.append_nil]
  | some row =>
    rw [append, csvAppend, Option.toList_some, List.map_singleton, List.flatMap_singleton, fields]
    split
    · rfl
    · rw [List.append_nil]

/-- Events keep the file the text of its records. -/
theorem Logged.step {e : Event ι} (hp : Logged settings p)
    (h : step settings server pause p e = some q) : Logged settings q := by
  obtain ⟨records, hrecords, hfile⟩ := hp
  rcases step_cases h with ⟨span, rfl, -, rfl⟩ | ⟨due, rfl, -, -, -, rfl⟩ |
    ⟨index, rfl, hindex, rfl⟩ | ⟨index, rfl, hindex, rfl⟩ |
    ⟨index, event, t, u, rfl, ht, hact, rfl⟩ | ⟨rfl, rfl⟩
  · exact ⟨records, ⟨hrecords.session, hrecords.only⟩, hfile⟩
  · refine ⟨records, ⟨fun i t ht ↦ ?_, fun record hrecord ↦ ?_⟩, hfile⟩
    · exact hrecords.session i t (getElem?_append_connecting ht)
    · obtain ⟨i, t, row, ht, hrow, hfields⟩ := hrecords.only record hrecord
      refine ⟨i, t, row, ?_, hrow, hfields⟩
      rw [create, List.getElem?_append_left (List.getElem?_eq_some_iff.mp ht).1, ht]
  · refine ⟨records, hrecords.set index ?_ ?_ rfl, hfile⟩
    · rw [hindex]
      exact nofun
    · rintro t ht
      cases ht
      rfl
  · refine ⟨records, hrecords.set index ?_ ?_ rfl, hfile⟩
    · rw [hindex]
      exact nofun
    · rintro t ht
      cases ht
  · obtain ⟨-, link, -, rfl⟩ := act_eq_some_iff.mp hact
    refine ⟨_, hrecords.session_act ht (stamp_rows p.now t link event) rfl, ?_⟩
    rw [session, append_eq, hfile]
    split
    · rw [← List.cons_append, List.flatMap_append]
    · rfl
  · exact ⟨records, ⟨hrecords.session, hrecords.only⟩, hfile⟩

end Logged

/-- In every run of a client program with any of its arguments and any server, with every
interleaving of its sessions and every cutting of requests and responses, the CSV file can be
read back at all times: its records are the header and the rows of all sessions, and those with
the number of a session are the rows that it has recorded, in their order. -/
theorem readsBack_always (settings : Settings) (server : Server σ ι) (pause : Pause Int ℚ)
    (events : List (Event ι)) :
    Step.Always (step settings server pause) (ReadsBack settings) (start settings) events :=
  Step.always_of_invariant (I := Logged settings) (fun _ hp ↦ hp.readsBack)
    (fun _ _ _ hp h ↦ hp.step h) logged_start events

end Esp32WebServers.Program
