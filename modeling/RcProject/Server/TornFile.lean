import Mathlib.Data.List.Nodup
import RcProject.Server.Runs

open rc_project.avl_tree rc_project.blocks rc_project.c_string rc_project.search_tree

namespace rc_project.server

section File

/-- The complete records of a file. -/
def complete_records (file : Bytes) : List client_t :=
  (List.range (file.length / client_t.size)).map fun i =>
    client_t.ofBytes (file.drop (i * client_t.size))

/-- What lies behind the complete records. -/
def torn_tail (file : Bytes) : Bytes := file.drop (file.length / client_t.size * client_t.size)

theorem length_torn_tail_lt (file : Bytes) : (torn_tail file).length < client_t.size := by
  rw [torn_tail, List.length_drop, client_t.size]
  omega

/-- The first records have the bytes of the first part of the file. -/
theorem flatMap_take_records (file : Bytes) {n : Nat} (hn : n * client_t.size ≤ file.length) :
    ((List.range n).map fun i => client_t.ofBytes (file.drop (i * client_t.size))).flatMap
      client_t.bytes = file.take (n * client_t.size) := by
  induction n with
  | zero => simp
  | succ n ih =>
    rw [Nat.succ_mul] at hn
    have hlength : client_t.size ≤ (file.drop (n * client_t.size)).length := by
      rw [List.length_drop]
      omega
    rw [List.range_succ, List.map_append, List.flatMap_append, ih (by omega), Nat.succ_mul,
      List.take_add]
    simp [client_t.bytes_ofBytes hlength]

/-- Every file is its complete records and an incomplete one. -/
theorem file_eq (file : Bytes) :
    (complete_records file).flatMap client_t.bytes ++ torn_tail file = file := by
  rw [complete_records, flatMap_take_records file (Nat.div_mul_le_self _ _), torn_tail,
    List.take_append_drop]

end File

/-- The user list holds exactly the complete records of the file, the first of every name. -/
structure Memory.LoadsRecords (memory : Memory) (file : Bytes) : Prop where
  names : (memory.stored.map client_t.username_string).Nodup
  records : ∀ record, record ∈ memory.stored ↔ (complete_records file).find?
    (fun first => first.username_string = record.username_string) = some record

/-- What the last read leaves in the record of the loop: the bytes it gets, and behind them
the ones of the complete record before it. -/
def torn_record (startup : Startup) (file : Bytes) : Bytes :=
  torn_tail file ++ ((complete_records file).getLastD startup.client).bytes.drop
    (torn_tail file).length

theorem length_torn_record (startup : Startup) (file : Bytes) :
    (torn_record startup file).length = client_t.size := by
  have htail := length_torn_tail_lt file
  rw [torn_record, List.length_append, List.length_drop, client_t.length_bytes]
  omega

/-- The name of the record that the last read leaves. -/
theorem username_string_torn_record (startup : Startup) (file : Bytes) :
    (client_t.ofBytes (torn_record startup file)).username_string =
      cstr (torn_record startup file) := by
  have hlength := length_torn_record startup file
  rw [client_t.username_string, client_t.bytes_ofBytes hlength.ge, ← hlength, List.take_length]

theorem Memory.Valid.names_nodup {memory : Memory} (hvalid : memory.Valid) :
    (memory.stored.map client_t.username_string).Nodup := by
  rw [Memory.stored, List.map_map]
  refine List.Nodup.map_on (fun u hu v hv => hvalid.user_unique hu hv) ?_
  exact hvalid.user_list.increasing.nodup (hvalid.user_list.lawful_contents _)
    hvalid.user_list.valid

/-- A record behind the others changes what every name finds only if it finds itself. -/
theorem find?_append_singleton_iff {records : List client_t} {torn : client_t} :
    (∀ record : client_t, (records ++ [torn]).find?
        (fun first => first.username_string = record.username_string) = some record ↔
      records.find? (fun first => first.username_string = record.username_string) = some record) ↔
    ∃ record ∈ records, record.username_string = torn.username_string := by
  constructor
  · intro hsame
    by_contra hnew
    push Not at hnew
    have hnone : records.find? (fun first => first.username_string = torn.username_string) =
        none := by
      rw [List.find?_eq_none]
      intro record hrecord
      simpa using hnew record hrecord
    have hfind := (hsame torn).mp (by simp [List.find?_append, hnone])
    rw [hnone] at hfind
    cases hfind
  · rintro ⟨first, hfirst, hname⟩ record
    rw [List.find?_append]
    cases hfind : records.find? (fun first => first.username_string = record.username_string) with
    | some found => simp
    | none =>
      have hother : torn.username_string ≠ record.username_string := by
        intro htorn
        have := List.find?_eq_none.mp hfind first hfirst
        simp [hname, htorn] at this
      simp [hother]

/-- The loop of `main` ends for every content of the file. It loads exactly the complete
records if and only if no record is torn, or its name, as the bytes of the record before
complete it, is one of theirs. -/
theorem loads_records_iff (startup : Startup) (file : Bytes) :
    ∃ server, main startup file = .ok server ∧ (server.memory.LoadsRecords file ↔
      torn_tail file = [] ∨ ∃ record ∈ complete_records file,
        record.username_string = cstr (torn_record startup file)) := by
  obtain ⟨server, hmain, hvalid, hstored⟩ :=
    exists_main_file startup (complete_records file) (length_torn_tail_lt file)
  rw [file_eq] at hmain
  have hloads : server.memory.LoadsRecords file ↔ ∀ record, record ∈ server.memory.stored ↔
      (complete_records file).find?
        (fun first => first.username_string = record.username_string) = some record :=
    ⟨Memory.LoadsRecords.records, fun hrecords => ⟨hvalid.names_nodup, hrecords⟩⟩
  refine ⟨server, hmain, ?_⟩
  rw [hloads]
  simp only [hstored]
  by_cases htail : torn_tail file = []
  · simp [Memory.mixed, htail]
  · have hmixed : Memory.mixed ((complete_records file).getLastD startup.client)
        (torn_tail file) = [client_t.ofBytes (torn_record startup file)] := if_neg htail
    rw [hmixed, find?_append_singleton_iff, username_string_torn_record]
    simp [htail]

/-- Of the second record only the name has reached the file. Its user is loaded with the
password of the first one. -/
theorem torn_record_loaded : ∃ server,
    main .blank (anaRecord.bytes ++ text "bob") = .ok server ∧
      bobRecord ∈ server.memory.stored ∧ bobRecord.password_string = text "pw" ∧
      complete_records (anaRecord.bytes ++ text "bob") = [anaRecord] ∧
      ¬ server.memory.LoadsRecords (anaRecord.bytes ++ text "bob") := by
  have hview : observe .blank (anaRecord.bytes ++ text "bob") []
      (fun server _ => server.memory.stored) = .ok [anaRecord, bobRecord] := by
    decide +kernel
  obtain ⟨server, last, outputs, hmain, hrun, hstored⟩ := exists_of_observe hview
  cases hrun
  have hmem : bobRecord ∈ server.memory.stored := by
    rw [hstored]
    exact List.mem_cons_of_mem _ (List.mem_singleton_self _)
  have hcomplete : complete_records (anaRecord.bytes ++ text "bob") = [anaRecord] := by
    decide +kernel
  refine ⟨server, hmain, hmem, by decide +kernel, hcomplete, ?_⟩
  intro hloads
  have hfind := (hloads.records bobRecord).mp hmem
  rw [hcomplete] at hfind
  have hbob := List.mem_singleton.mp (List.mem_of_find?_eq_some hfind)
  exact absurd hbob (by decide +kernel)

end rc_project.server
