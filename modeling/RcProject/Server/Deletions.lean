import RcProject.Server.Roster

open rc_project.avl_tree rc_project.blocks rc_project.c_string rc_project.scanf
  rc_project.search_tree rc_project.transition

namespace rc_project.server

theorem foldl_arrive {before names : List Bytes} (hnodup : (before ++ names).Nodup) :
    names.foldl arrive before = before ++ names := by
  induction names generalizing before with
  | nil => simp
  | cons name names ih =>
    have hnew : name ∉ before := fun hmem =>
      (List.nodup_append.mp hnodup).2.2 name hmem name List.mem_cons_self rfl
    rw [List.append_cons] at hnodup ⊢
    rw [List.foldl_cons, arrive, if_neg hnew, ih hnodup]

namespace Roster

variable {names names' : List Bytes} {socket : Int} {command : Option (AdminCommand × Bytes)}
  {noted : List Noted}

/-- The names that an admin asks to delete. -/
def deletion : Option (AdminCommand × Bytes) → List Bytes
  | some (.DEL, args) =>
    match sscanf args [.word USERNAME_SIZE] with
    | .ok [.string username] => [cstr username]
    | _ => []
  | _ => []

/-- The names stand in the order in which a traversal lists them. -/
structure Sorted (names : List Bytes) : Prop where
  increasing : Increasing strcmp names
  nul_not_mem : ∀ name ∈ names, cstr name = name

theorem Sorted.sublist (h : Sorted names) (hsublist : names'.Sublist names) : Sorted names' where
  increasing := List.Pairwise.sublist hsublist h.increasing
  nul_not_mem name hmem := h.nul_not_mem name (hsublist.subset hmem)

theorem strcmp_lawful_bytes : LawfulOn strcmp Set.univ := strcmp_lawful id

theorem Sorted.nodup (h : Sorted names) : names.Nodup :=
  h.increasing.nodup strcmp_lawful_bytes fun _ _ => trivial

theorem Sorted.listing_eq (h : Sorted names) : listing strcmp names = names :=
  List.Pairwise.insertionSort_eq (h.increasing.imp fun hlt => hlt.le)

theorem Sorted.removed_eq (h : Sorted names) (username : Bytes) :
    removed strcmp names (cstr username) = names.filter fun name => name ∉ [cstr username] := by
  rw [removed_of_increasing strcmp_lawful_bytes h.increasing]
  refine List.filter_congr fun name hname => ?_
  have hiff : strcmp (cstr username) name ≠ 0 ↔ name ∉ [cstr username] := by
    rw [ne_eq, strcmp_eq_zero_iff, cstr_cstr, h.nul_not_mem name hname, List.mem_singleton]
    exact not_congr eq_comm
  exact decide_eq_decide.mpr hiff

/-- The roster behind a start from a sorted file. -/
theorem Sorted.loaded_names (h : Sorted names) : (loaded names).names = names := by
  have hnodup : ([] ++ names).Nodup := h.nodup
  exact foldl_arrive hnodup

/-- A command that adds nobody leaves a sorted file sorted, and where the users have arrived in
the order of their names it removes exactly those that are to be deleted. -/
theorem Sorted.answered (hanswered : Roster.answered names socket command = .ok (names', noted))
    (hadd : ∀ args, command ≠ some (.ADD, args)) (h : Sorted names) :
    names' = names.filter fun name => name ∉ deletion command := by
  match command with
  | none | some (.LIST, args) | some (.QUIT, args) =>
    cases hanswered
    simp [deletion]
  | some (.ADD, args) => exact absurd rfl (hadd args)
  | some (.DEL, args) =>
    obtain ⟨values, hargs, hanswered⟩ := Result.bind_eq_ok_iff.mp hanswered
    split at hanswered
    · rename_i username
      simp only [deletion, hargs]
      split at hanswered <;> cases hanswered
      · exact h.removed_eq username
      · rename_i hnone
        rw [eq_comm, List.filter_eq_self]
        simp only [List.mem_singleton, decide_not, Bool.not_eq_eq_eq_not, Bool.not_true,
          decide_eq_false_iff_not]
        rintro name hname rfl
        exact hnone hname
    · rename_i hother
      cases hanswered
      have hnone : deletion (some (.DEL, args)) = [] := by
        simp only [deletion, hargs]
        split
        · rename_i username hone
          cases hone
          exact (hother _ rfl).elim
        · rfl
      simp [hnone]

/-- A command either writes the names that it leaves, in their order, or adds a user, or leaves
the file as it is. -/
theorem answered_file (hanswered : Roster.answered names socket command = .ok (names', noted)) :
    (∀ file, noted.foldl Noted.onFile file = listing strcmp names') ∨
      .ftruncate ∉ noted ∧ ((∃ args, command = some (.ADD, args)) ∨
        ∀ file, noted.foldl Noted.onFile file = file) := by
  have htell (line : Bytes) : .ftruncate ∉ [tell socket line] := by simp [tell]
  obtain _ | ⟨command, args⟩ := command
  · cases hanswered
    exact Or.inr ⟨htell _, Or.inr fun _ => rfl⟩
  cases command with
  | QUIT =>
    cases hanswered
    exact Or.inr ⟨List.not_mem_nil, Or.inr fun _ => rfl⟩
  | LIST =>
    cases hanswered
    refine Or.inr ⟨by simp [Roster.cmd_list, tell], Or.inr fun file => ?_⟩
    rw [Roster.cmd_list, List.foldl_map]
    exact List.foldl_fixed' (fun _ => rfl) _
  | ADD =>
    obtain ⟨values, -, hanswered⟩ := Result.bind_eq_ok_iff.mp hanswered
    refine Or.inr ⟨?_, Or.inl ⟨args, rfl⟩⟩
    split at hanswered
    · split at hanswered <;> cases hanswered <;> simp [tell]
    · cases hanswered
      exact htell _
  | DEL =>
    obtain ⟨values, -, hanswered⟩ := Result.bind_eq_ok_iff.mp hanswered
    split at hanswered
    · split at hanswered <;> cases hanswered
      · refine Or.inl fun file => ?_
        rw [List.cons_append, List.foldl_cons, List.foldl_append, foldl_onFile_write]
        rfl
      · exact Or.inr ⟨htell _, Or.inr fun _ => rfl⟩
    · cases hanswered
      exact Or.inr ⟨htell _, Or.inr fun _ => rfl⟩

end Roster

section Runs

variable {server next last rebuilt : Server} {roster : Roster} {event : Event} {events : List Event}
  {outputs : List Output} {lines : List (Option (AdminCommand × Bytes))}

/-- The commands of the admins. -/
def Server.asked (server : Server) (event : Event) (_ : List Output) :
    List (Option (AdminCommand × Bytes)) :=
  match server.request event with
  | some (.admin _ command) => [command]
  | _ => []

/-- What a traversal lists is sorted. -/
theorem Memory.Enrolled.sorted {memory : Memory} (h : memory.Enrolled roster) :
    Roster.Sorted (listing strcmp roster.names) := by
  rw [← h.names_users]
  constructor
  · refine List.pairwise_map.mpr (h.valid.user_list.increasing.imp fun hlt => ?_)
    rwa [← Memory.data_cmp_names]
  · intro name hname
    obtain ⟨u, -, rfl⟩ := List.mem_map.mp hname
    exact cstr_cstr _

/-- Behind a deletion the file is sorted. -/
theorem sorted_of_ftruncate (h : server.memory.Enrolled roster)
    (hstep : step server event = .ok (next, outputs)) (hwritten : .ftruncate ∈ outputs) :
    ∃ roster', next.memory.Enrolled roster' ∧ Roster.Sorted roster'.file := by
  have hmem : Noted.ftruncate ∈ outputs.filterMap Output.noted :=
    List.mem_filterMap.mpr ⟨.ftruncate, hwritten, rfl⟩
  obtain ⟨socket, command, names, -, hanswered, hnext, -⟩ | ⟨-, -, hnone⟩ := step_notes h hstep
  · obtain hfile | ⟨hnone, -⟩ := Roster.answered_file hanswered
    · refine ⟨_, hnext, ?_⟩
      rw [hfile]
      exact hnext.sorted
    · exact absurd hmem hnone
  · rw [hnone] at hmem
    cases hmem

/-- As long as nobody is added, a sorted file stays sorted. -/
theorem sorted_of_step (h : server.memory.Enrolled roster) (hsorted : Roster.Sorted roster.file)
    (hadd : ∀ args, some (.ADD, args) ∉ server.asked event outputs)
    (hstep : step server event = .ok (next, outputs)) :
    ∃ roster', next.memory.Enrolled roster' ∧ Roster.Sorted roster'.file := by
  obtain ⟨socket, command, names, hrequest, hanswered, hnext, -⟩ | ⟨-, hnext, -⟩ :=
    step_notes h hstep
  · simp only [Server.asked, hrequest, List.mem_singleton] at hadd
    refine ⟨_, hnext, ?_⟩
    obtain hfile | ⟨-, ⟨args, rfl⟩ | hfile⟩ := Roster.answered_file hanswered
    · rw [hfile]
      exact hnext.sorted
    · exact absurd rfl (hadd args)
    · rw [hfile]
      exact hsorted
  · exact ⟨roster, hnext, hsorted⟩

/-- Where the users have arrived in the order of their names, a step removes exactly those that
it asks to delete. -/
theorem deletes_of_step (h : server.memory.Enrolled roster) (hsorted : Roster.Sorted roster.names)
    (hadd : ∀ args, some (.ADD, args) ∉ server.asked event outputs)
    (hstep : step server event = .ok (next, outputs)) :
    ∃ roster', next.memory.Enrolled roster' ∧ roster'.names = roster.names.filter fun name =>
      name ∉ (server.asked event outputs).flatMap Roster.deletion := by
  obtain ⟨socket, command, names, hrequest, hanswered, hnext, -⟩ | ⟨hother, hnext, -⟩ :=
    step_notes h hstep
  · simp only [Server.asked, hrequest, List.mem_singleton, List.flatMap_singleton] at hadd ⊢
    exact ⟨_, hnext, hsorted.answered hanswered fun args hcommand => hadd args hcommand.symm⟩
  · refine ⟨roster, hnext, ?_⟩
    have hasked : server.asked event outputs = [] := by
      rw [Server.asked]
      split
      · rename_i socket command hrequest
        exact absurd hrequest (hother socket command)
      · rfl
    simp [hasked]

theorem sorted_of_trace (h : server.memory.Enrolled roster) (hsorted : Roster.Sorted roster.file)
    (htrace : trace step Server.asked server events = .ok (last, lines))
    (hadd : ∀ args, some (.ADD, args) ∉ lines) :
    ∃ roster', last.memory.Enrolled roster' ∧ Roster.Sorted roster'.file := by
  induction events generalizing server roster lines with
  | nil =>
    cases htrace
    exact ⟨roster, h, hsorted⟩
  | cons event events ih =>
    obtain ⟨⟨next, outputs⟩, hstep, htrace⟩ := Result.bind_eq_ok_iff.mp htrace
    obtain ⟨⟨last', rest⟩, hrest, htrace⟩ := Result.bind_eq_ok_iff.mp htrace
    cases htrace
    simp only [List.mem_append, not_or, forall_and] at hadd
    obtain ⟨roster', hnext, hsorted'⟩ := sorted_of_step h hsorted hadd.1 hstep
    exact ih hnext hsorted' hrest hadd.2

theorem deletes_of_trace (h : server.memory.Enrolled roster) (hsorted : Roster.Sorted roster.names)
    (htrace : trace step Server.asked server events = .ok (last, lines))
    (hadd : ∀ args, some (.ADD, args) ∉ lines) :
    ∃ roster', last.memory.Enrolled roster' ∧
      roster'.names = roster.names.filter fun name => name ∉ lines.flatMap Roster.deletion := by
  induction events generalizing server roster lines with
  | nil =>
    cases htrace
    exact ⟨roster, h, by simp⟩
  | cons event events ih =>
    obtain ⟨⟨next, outputs⟩, hstep, htrace⟩ := Result.bind_eq_ok_iff.mp htrace
    obtain ⟨⟨last', rest⟩, hrest, htrace⟩ := Result.bind_eq_ok_iff.mp htrace
    cases htrace
    simp only [List.mem_append, not_or, forall_and] at hadd
    obtain ⟨middle, hmiddle, hfirst⟩ := deletes_of_step h hsorted hadd.1 hstep
    have hsorted' : Roster.Sorted middle.names := hfirst ▸ hsorted.sublist List.filter_sublist
    obtain ⟨roster', hlast, hnames⟩ := ih hmiddle hsorted' hrest hadd.2
    refine ⟨roster', hlast, ?_⟩
    rw [hnames, hfirst, List.filter_filter]
    refine List.filter_congr fun name _ => ?_
    simp only [List.flatMap_append, List.mem_append, not_or, Bool.decide_and]
    exact Bool.and_comm _ _

variable {startup restarted : Startup} {file : List client_t} {start deleted stopped : Server}
  {happenings : List Happening} {between : List Event}
  {lines' : List (Option (AdminCommand × Bytes))}

/-- Behind a deletion, whether or not it has left its user in place, and a restart, as long as
nobody is added in the meantime, every deletion deletes: the users that are left are those of
the restart except for the ones that the admins have asked to delete. -/
theorem deletions_take_effect (hmain : main startup (file.flatMap client_t.bytes) = .ok start)
    (hreach : Reaches live start happenings server)
    (hdelete : step server event = .ok (deleted, outputs)) (hwritten : .ftruncate ∈ outputs)
    (hbetween : trace step Server.asked deleted between = .ok (stopped, lines))
    (hnone : ∀ args, some (.ADD, args) ∉ lines)
    (hrestart : main restarted stopped.memory.records = .ok rebuilt)
    (htrace : trace step Server.asked rebuilt events = .ok (last, lines'))
    (hnone' : ∀ args, some (.ADD, args) ∉ lines') :
    last.memory.names last.memory.users = (rebuilt.memory.names rebuilt.memory.users).filter
      fun name => name ∉ lines'.flatMap Roster.deletion := by
  obtain ⟨roster, h⟩ : ∃ roster, server.memory.Enrolled roster :=
    hreach.invariant (fun server : Server => ∃ roster, server.memory.Enrolled roster)
      ⟨_, enrolled_of_main ⟨file, rfl, rfl⟩ hmain⟩ fun _ _ _ _ ⟨_, h⟩ hlive =>
        let ⟨roster', _, h'⟩ := live_notes h hlive
        ⟨roster', h'⟩
  obtain ⟨roster₁, h₁, hsorted₁⟩ := sorted_of_ftruncate h hdelete hwritten
  obtain ⟨roster₂, h₂, hsorted₂⟩ := sorted_of_trace h₁ hsorted₁ hbetween hnone
  have h₃ := enrolled_of_main h₂.filed hrestart
  have hnames₃ := hsorted₂.loaded_names
  have hsorted₃ : Roster.Sorted (Roster.loaded roster₂.file).names := by rwa [hnames₃]
  obtain ⟨roster₄, h₄, hnames₄⟩ := deletes_of_trace h₃ hsorted₃ htrace hnone'
  have hsorted₄ : Roster.Sorted roster₄.names := by
    rw [hnames₄, hnames₃]
    exact hsorted₂.sublist List.filter_sublist
  rw [h₄.names_users, hsorted₄.listing_eq, hnames₄, h₃.names_users, hnames₃, hsorted₂.listing_eq]

/-- The deletion that has left the first user in place is done behind the restart. -/
theorem deletions_take_effect_witness : ∃ (rebuilt last : Server),
    rebuilt.memory.names rebuilt.memory.users = [text "ana", text "eva", text "zoe"] ∧
      last.memory.names last.memory.users =
        (rebuilt.memory.names rebuilt.memory.users).filter fun name => name ∉ [text "eva"] := by
  let happenings : List Happening := [
    .event (.accept .blank),
    .event (.read (text "ADD eva 10.0.0.1 pw 1 0 1\n")),
    .event (.read (text "ADD ana 10.0.0.1 pw 1 0 1\n")),
    .event (.read (text "ADD zoe 10.0.0.1 pw 1 0 1\n"))]
  have hview : (do
      let start ← main .blank []
      let filled ← run live start happenings
      let deleted ← step filled.1 (.read (text "DEL eva\n"))
      let rebuilt ← main .blank deleted.1.memory.records
      let asked ← trace step Server.asked rebuilt [.accept .blank, .read (text "DEL eva\n")]
      return decide (.ftruncate ∈ deleted.2 ∧ rebuilt.memory.names rebuilt.memory.users =
        [text "ana", text "eva", text "zoe"] ∧ asked.2 = [some (.DEL, text "eva")])) =
          Except.ok true := by
    decide +kernel
  obtain ⟨start, hmain, hview⟩ := Result.bind_eq_ok_iff.mp hview
  obtain ⟨⟨server, outputs⟩, hrun, hview⟩ := Result.bind_eq_ok_iff.mp hview
  obtain ⟨⟨deleted, written⟩, hdelete, hview⟩ := Result.bind_eq_ok_iff.mp hview
  obtain ⟨rebuilt, hrestart, hview⟩ := Result.bind_eq_ok_iff.mp hview
  obtain ⟨⟨last, lines⟩, htrace, hview⟩ := Result.bind_eq_ok_iff.mp hview
  obtain ⟨hwritten, hnames, rfl⟩ := of_decide_eq_true (Except.ok.inj hview)
  have hempty : main .blank (([] : List client_t).flatMap client_t.bytes) = .ok start := hmain
  have hlast := deletions_take_effect hempty ⟨outputs, hrun⟩ hdelete hwritten
    (rfl : trace step Server.asked deleted [] = .ok (deleted, [])) (fun _ => List.not_mem_nil)
    hrestart htrace (fun args => by simp)
  refine ⟨rebuilt, last, hnames, hlast.trans ?_⟩
  have hdeletion : Roster.deletion (some (.DEL, text "eva")) = [text "eva"] := by decide +kernel
  rw [List.flatMap_singleton, hdeletion]

end Runs

end rc_project.server
