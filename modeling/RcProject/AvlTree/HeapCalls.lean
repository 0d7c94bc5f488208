import RcProject.AvlTree.Balance
import RcProject.AvlTree.HeapRecursion
import RcProject.Library.Transition
import Mathlib.Algebra.GroupWithZero.Nat

open rc_project.heap rc_project.heap_tree rc_project.ledger rc_project.search_tree
open rc_project.transition
open rc_project.avl_tree (Cell Effect Low against elements AVL_OK AVL_DUPLICATED_KEY
  AVL_KEY_NOT_FOUND)

namespace rc_project.avl_heap

variable {α : Type}

/-- What a caller hands over: a variable of its own, or a block that it has just
allocated and filled, and lets the tree free. -/
inductive Argument (α : Type)
  | stack (value : α)
  | heap (value : α) (hint : Nat)

def Argument.value : Argument α → α
  | .stack value => value
  | .heap value _ => value

def Argument.free_data : Argument α → Bool
  | .stack _ => false
  | .heap _ _ => true

def Memory.pass (m : Memory α) : Argument α → Memory α × Pointer α
  | .stack value => (m, .stack value)
  | .heap value hint =>
    let (data, address) := m.data.malloc hint value
    ({ m with data }, .heap address)

inductive Call (α : Type)
  | add (data : Argument α) (write_data : Bool) (node_hint data_hint : Nat)
  | remove (data : Argument α) (write_data : Bool)
  | get (value : α)

/-- What a call hands back. Data that was found is given with its address. -/
inductive Reply (α : Type)
  | status (code : Int) (effects : List (Effect α))
  | found (data : Option (Nat × α))

def call (data_cmp : α → α → Int) : Machine (Memory α × avl_tree_t) (Call α) (Reply α)
  | (m, tree), .add data write_data node_hint data_hint => do
    let (m, pointer) := m.pass data
    let (code, m, tree, effects) ←
      avl_add data_cmp m tree pointer data.free_data write_data node_hint data_hint
    return ((m, tree), .status code effects)
  | (m, tree), .remove data write_data => do
    let (m, pointer) := m.pass data
    let (code, m, tree, effects) ← avl_remove data_cmp m tree pointer data.free_data write_data
    return ((m, tree), .status code effects)
  | (m, tree), .get value => do
    match ← avl_get data_cmp m tree (.stack value) with
    | none => return ((m, tree), .found none)
    | some pointer =>
      let data ← m.data.load (some pointer)
      return ((m, tree), .found (some (pointer, data)))

/-- The call in the model whose blocks are never handed out twice. -/
def Call.plain : Call α → avl_tree.Call α
  | .add data write_data _ _ => .add data.value data.free_data write_data
  | .remove data write_data => .remove data.value data.free_data write_data
  | .get value => .get value

def Reply.plain : Reply α → avl_tree.Reply α
  | .status code effects => .status code effects
  | .found data => .found (data.map Prod.snd)

/-- What a reply says of the world outside of the heap. -/
def outside : avl_tree.Reply α → avl_tree.Reply α
  | .status code effects => .status code (effects.filter fun
    | .free _ => false
    | _ => true)
  | .found data => .found data

/-- The blocks of data that a call leaves allocated: the copy of what was added, and what was
handed over with a call that was refused. -/
def left_over : Call α → Reply α → Nat
  | .add data _ _ _, .status code _ => if code = AVL_OK then 1 else data.free_data.toNat
  | .remove data _, .status code _ => if code = AVL_OK then 0 else data.free_data.toNat
  | _, _ => 0

section Data

variable {base m : Memory α} {kept : Finset Nat}

/-- What was handed over can be read, in memory in which at most one more block is
allocated. -/
theorem pass_eq (hledger : Ledger base.data m.data kept []) (data : Argument α) :
    ∃ m₁ pointer kept₁, m.pass data = (m₁, pointer) ∧ m₁.load pointer = .ok data.value ∧
      m₁.nodes = m.nodes ∧ m.data.Keeps m₁.data ∧ Ledger base.data m₁.data kept₁ [] ∧
      kept₁.card = kept.card + data.free_data.toNat := by
  cases data with
  | stack value => exact ⟨m, _, kept, rfl, rfl, rfl, .refl _, hledger, rfl⟩
  | heap value hint =>
    have hfree := m.data.pick_fresh hint
    have hnot := (hledger.free hfree).2.1
    refine ⟨_, _, _, rfl, ?_, rfl, (Heap.Keeps.refl _).set hfree _, hledger.malloc hfree value, ?_⟩
    · exact Heap.load_of_some (Heap.set_self ..)
    · rw [Finset.card_insert_of_notMem hnot]
      rfl

/-- A block that was handed over is given back, and nothing else happens. -/
theorem pass_free_eq (hledger : Ledger base.data m.data kept []) (data : Argument α)
    (nodes : Nodes) :
    ∃ m₂, (if data.free_data then
        ({ (m.pass data).1 with nodes } : Memory α).free (m.pass data).2
      else pure { (m.pass data).1 with nodes } : Result (Memory α)) = .ok m₂ ∧ m₂.nodes = nodes ∧
      m.data.Keeps m₂.data ∧ Ledger base.data m₂.data kept [] := by
  cases data with
  | stack value => exact ⟨_, rfl, rfl, .refl _, hledger⟩
  | heap value hint =>
    have hfree := m.data.pick_fresh hint
    have hnot := (hledger.free hfree).2.1
    have hblock : (m.data.set (m.data.pick hint) (some value)).blocks (m.data.pick hint) =
        some value := Heap.set_self ..
    have hkeeps := ((Heap.Keeps.refl m.data).set hfree (some value)).set hfree none
    have hback := (hledger.malloc hfree value).give_back (Finset.mem_insert_self _ kept)
    rw [Finset.erase_insert hnot] at hback
    refine ⟨⟨nodes, (m.data.set (m.data.pick hint) (some value)).set (m.data.pick hint) none⟩, ?_,
      rfl, hkeeps, hback⟩
    simp [Argument.free_data, Memory.pass, Memory.free, Heap.malloc, Heap.free_of_some hblock]

/-- A new node takes a block for itself and one for the copy of its data. -/
theorem new_avl_node_eq (hledger : Ledger base.data m.data kept []) (data : Argument α)
    (node_hint data_hint : Nat) :
    ∃ m₁ node copy, new_avl_node (m.pass data).1 (m.pass data).2 data.free_data node_hint data_hint =
        .ok (m₁, node) ∧ m.nodes.blocks node = none ∧
      m₁.nodes = m.nodes.set node (some { height := 1, data := copy, left := none, right := none }) ∧
      m₁.data.blocks copy = some data.value ∧ m.data.Keeps m₁.data ∧ copy ∉ kept ∧
      Ledger base.data m₁.data (insert copy kept) [] := by
  have hnode := m.nodes.pick_fresh node_hint
  cases data with
  | stack value =>
    have hfree := m.data.pick_fresh data_hint
    exact ⟨_, _, m.data.pick data_hint, rfl, hnode, rfl, Heap.set_self ..,
      (Heap.Keeps.refl _).set hfree _, (hledger.free hfree).2.1, hledger.malloc hfree value⟩
  | heap value hint =>
    have hfree := m.data.pick_fresh hint
    have hnot := (hledger.free hfree).2.1
    generalize hpassed : m.data.set (m.data.pick hint) (some value) = passed
    have hpassed' : Ledger base.data passed (insert (m.data.pick hint) kept) [] :=
      hpassed ▸ hledger.malloc hfree value
    have hblock : passed.blocks (m.data.pick hint) = some value := hpassed ▸ Heap.set_self ..
    have hcopy := passed.pick_fresh data_hint
    have hne : passed.pick data_hint ≠ m.data.pick hint := by
      intro heq
      rw [heq, hblock] at hcopy
      cases hcopy
    have hkept := (hpassed'.free hcopy).2.1
    rw [Finset.mem_insert, not_or] at hkept
    have hstill : (passed.set (passed.pick data_hint) (some value)).blocks (m.data.pick hint) =
        some value := by
      rw [Heap.set_of_ne _ hne.symm, hblock]
    have hkeeps : m.data.Keeps ((passed.set (passed.pick data_hint) (some value)).set
        (m.data.pick hint) none) := by
      refine Heap.Keeps.set (fun other value' hother => ?_) hfree none
      have hpassed_other := ((Heap.Keeps.refl m.data).set hfree (some value)) other value' hother
      rw [hpassed] at hpassed_other
      exact ((Heap.Keeps.refl passed).set hcopy (some value)) other value' hpassed_other
    have hback := (hpassed'.malloc hcopy value).give_back
      (Finset.mem_insert_of_mem (Finset.mem_insert_self _ kept))
    rw [Finset.erase_insert_of_ne hne, Finset.erase_insert hnot] at hback
    refine ⟨⟨m.nodes.set (m.nodes.pick node_hint)
        (some { height := 1, data := passed.pick data_hint, left := none, right := none }),
      (passed.set (passed.pick data_hint) (some value)).set (m.data.pick hint) none⟩, _,
      passed.pick data_hint, ?_, hnode, rfl, ?_, hkeeps, hkept.2, hback⟩
    · simp [new_avl_node, Argument.free_data, Memory.pass, Memory.load, Memory.free, Heap.malloc,
        hpassed, Heap.load_of_some hblock, Heap.free_of_some hstill]
    · rw [Heap.set_of_ne _ hne, Heap.set_self]
      rfl

end Data

/-- A tree in the heap, which was in the state `base` before there was a tree: its nodes are
the only ones that are allocated beyond those of `base`, and `kept` are all blocks of data
that are. -/
structure Represents (base m : Memory α) (T : avl_tree_t) (tree : BinaryTree (Cell α))
    (kept : Finset Nat) : Prop where
  owned : ∃ footprint, Hangs (layout m.data) m.nodes T.root tree footprint ∧
    Ledger base.nodes m.nodes footprint []
  data : Ledger base.data m.data kept []
  low : Low tree
  bounded : tree.height ≤ T.size

theorem new_avl_tree_represents (base : Memory α) (fd : Int) :
    Represents base base (new_avl_tree fd) .nil ∅ where
  owned := ⟨∅, .nil, .refl _⟩
  data := .refl _
  low := trivial
  bounded := Nat.le_refl 0

theorem hangs_of_keeps {data data' : Heap α} {nodes : Nodes} {pointer : Option Nat}
    {tree : BinaryTree (Cell α)} {footprint : Finset Nat}
    (h : Hangs (layout data) nodes pointer tree footprint) (hkeeps : data.Keeps data') :
    Hangs (layout data') nodes pointer tree footprint :=
  h.frame rfl rfl (fun _ _ hvalue => ⟨hvalue.1, hkeeps _ _ hvalue.2⟩) fun _ _ => rfl

section Operations

variable {base m : Memory α} {T : avl_tree_t} {tree : BinaryTree (Cell α)} {kept : Finset Nat}
  {data_cmp : α → α → Int}

/-- The search, while more data may be allocated. -/
theorem Represents.private_avl_get (data_cmp : α → α → Int) (h : Represents base m T tree kept)
    {data : Heap α} (hkeeps : m.data.Keeps data) (value : α) :
    ∃ found, avl_heap.private_avl_get data_cmp data T.size m.nodes T.root value = .ok found ∧
      (found = none ↔ find (against data_cmp value) tree = none) ∧
      ∀ node, found = some node → ∃ block cell, m.nodes.blocks node = some block ∧
        data.blocks block.data = some cell.2 ∧ find (against data_cmp value) tree = some cell := by
  obtain ⟨footprint, hhangs, -⟩ := h.owned
  obtain ⟨found, hget, hnone, hsome⟩ :=
    private_avl_get_eq data_cmp (hangs_of_keeps hhangs hkeeps) h.bounded value
  refine ⟨found, hget, ⟨hnone, fun hfind => ?_⟩, fun node hfound => ?_⟩
  · cases found with
    | none => rfl
    | some node =>
      obtain ⟨_, cell, -, -, hcell⟩ := hsome node rfl
      cases hfind.symm.trans hcell
  · obtain ⟨block, cell, hblock, hvalue, hcell⟩ := hsome node hfound
    exact ⟨block, cell, hblock, hvalue.2, hcell⟩

/-- A key that is there: what was handed over stays allocated, and nothing else is done. -/
theorem Represents.avl_add_duplicated (h : Represents base m T tree kept) {data : Argument α}
    {cell : Cell α} (hfind : find (against data_cmp data.value) tree = some cell)
    (write_data : Bool) (node_hint data_hint : Nat) :
    ∃ m₁ kept₁, avl_add data_cmp (m.pass data).1 T (m.pass data).2 data.free_data write_data
        node_hint data_hint = .ok (AVL_DUPLICATED_KEY, m₁, T, []) ∧ m.data.Keeps m₁.data ∧
      Represents base m₁ T tree kept₁ ∧ kept₁.card = kept.card + data.free_data.toNat := by
  obtain ⟨m₁, pointer, kept₁, hpass, hload, hnodes, hkeeps, hledger, hcard⟩ := pass_eq h.data data
  obtain ⟨found, hget, hnone, -⟩ := h.private_avl_get data_cmp hkeeps data.value
  have hfound : found ≠ none := by
    rw [Ne, hnone, hfind]
    exact Option.some_ne_none cell
  obtain ⟨footprint, hhangs, hown⟩ := h.owned
  rw [← hnodes] at hget hhangs hown
  refine ⟨m₁, kept₁, ?_, hkeeps, ⟨⟨footprint, hangs_of_keeps hhangs hkeeps, hown⟩, hledger, h.low,
    h.bounded⟩, hcard⟩
  simp only [avl_add, hpass, hload, hget, Result.ok_bind, if_pos hfound, Result.pure_eq_ok]

/-- A key that is not there: the tree has one node more, with a copy of the data. -/
theorem Represents.avl_add_ok (h : Represents base m T tree kept) {data : Argument α}
    (hfind : find (against data_cmp data.value) tree = none) (write_data : Bool)
    (node_hint data_hint : Nat) :
    ∃ m₁ root copy, avl_add data_cmp (m.pass data).1 T (m.pass data).2 data.free_data write_data
        node_hint data_hint = .ok (AVL_OK, m₁, { T with root, size := T.size + 1 },
          if write_data then [.write T.fd data.value] else []) ∧ m.data.Keeps m₁.data ∧
      Represents base m₁ { T with root, size := T.size + 1 }
        (avl_tree.insert data_cmp data.value tree) (insert copy kept) ∧ copy ∉ kept := by
  obtain ⟨_, _, _, hpass, hload, hnodes, hkeeps, -, -⟩ := pass_eq h.data data
  obtain ⟨found, hget, hnone, -⟩ := h.private_avl_get data_cmp hkeeps data.value
  obtain ⟨m₁, node, copy, hnew, hfree, hnodes₁, hcopy, hkeeps₁, hnot, hledger⟩ :=
    new_avl_node_eq h.data data node_hint data_hint
  obtain ⟨footprint, hhangs, hown⟩ := h.owned
  have hfresh : node ∉ footprint := fun hmem => hhangs.live node hmem hfree
  have hhangs₁ : Hangs (layout m₁.data) m₁.nodes T.root tree footprint := by
    rw [hnodes₁]
    exact (hangs_of_keeps hhangs hkeeps₁).set hfresh _
  have hnode : m₁.nodes.blocks node = some { height := 1, data := copy, left := none, right := none } := by
    rw [hnodes₁, Heap.set_self]
  obtain ⟨nodes', root, hadd, footprint', hhangs', hsub, hothers⟩ :=
    private_avl_add_eq data_cmp hhangs₁ h.low h.bounded hfresh hnode hcopy
  -- the new tree has one node more, so it uses all blocks of the old one and the new block
  have hprint : footprint' = insert node footprint := by
    rw [Finset.union_comm] at hsub
    refine Finset.eq_of_subset_of_card_le hsub ?_
    rw [Finset.card_insert_of_notMem hfresh, hhangs'.card_eq, hhangs₁.card_eq,
      avl_tree.numNodes_insert hfind]
  subst hprint
  have hown₁ : Ledger base.nodes m₁.nodes (insert node footprint) [] := by
    rw [hnodes₁]
    exact hown.malloc hfree _
  have hown' : Ledger base.nodes nodes' (insert node footprint) [] := by
    refine hown₁.rebuild (fun _ hmem => hmem) hhangs'.live fun address hnot => ?_
    rw [hothers address hnot, if_neg hnot, if_neg fun hmem => hnot (Finset.mem_insert_of_mem hmem)]
  refine ⟨{ m₁ with nodes := nodes' }, root, copy, ?_, hkeeps₁, ⟨⟨_, hhangs', hown'⟩, hledger,
    avl_tree.low_insert h.low, ?_⟩, hnot⟩
  · rw [hpass] at hnew ⊢
    rw [← hnodes] at hget
    simp only [avl_add, hload, hget, hnone.mpr hfind, hnew, hadd, Result.ok_bind, ne_eq,
      not_true_eq_false, if_false, Result.pure_eq_ok]
  · exact (avl_tree.height_insert_le tree).trans (Nat.succ_le_succ h.bounded)

/-- A key that is not there: what was handed over stays allocated. -/
theorem Represents.avl_remove_not_found (h : Represents base m T tree kept) {data : Argument α}
    (hfind : find (against data_cmp data.value) tree = none) (write_data : Bool) :
    ∃ m₁ kept₁, avl_remove data_cmp (m.pass data).1 T (m.pass data).2 data.free_data write_data =
        .ok (AVL_KEY_NOT_FOUND, m₁, T, []) ∧ m.data.Keeps m₁.data ∧
      Represents base m₁ T tree kept₁ ∧ kept₁.card = kept.card + data.free_data.toNat := by
  obtain ⟨m₁, pointer, kept₁, hpass, hload, hnodes, hkeeps, hledger, hcard⟩ := pass_eq h.data data
  obtain ⟨found, hget, hnone, -⟩ := h.private_avl_get data_cmp hkeeps data.value
  obtain ⟨footprint, hhangs, hown⟩ := h.owned
  rw [← hnodes] at hget hhangs hown
  refine ⟨m₁, kept₁, ?_, hkeeps, ⟨⟨footprint, hangs_of_keeps hhangs hkeeps, hown⟩, hledger, h.low,
    h.bounded⟩, hcard⟩
  simp only [avl_remove, hpass, hload, hget, hnone.mpr hfind, Result.ok_bind, if_true,
    Result.pure_eq_ok]

/-- A key that is there: what the tree does not use any more of its nodes is freed, and of
the data only what was handed over. -/
theorem Represents.avl_remove_ok (h : Represents base m T tree kept) {data : Argument α}
    {cell : Cell α} (hfind : find (against data_cmp data.value) tree = some cell)
    (write_data : Bool) :
    ∃ m₁ root, avl_remove data_cmp (m.pass data).1 T (m.pass data).2 data.free_data write_data =
        .ok (AVL_OK, m₁, { T with root }, if write_data then .ftruncate T.fd ::
          (elements (avl_tree.erase data_cmp data.value tree)).map (.write T.fd) else []) ∧
      m.data.Keeps m₁.data ∧
      Represents base m₁ { T with root } (avl_tree.erase data_cmp data.value tree) kept := by
  obtain ⟨_, _, _, hpass, hload, hnodes, hkeeps, -, -⟩ := pass_eq h.data data
  obtain ⟨found, hget, hnone, -⟩ := h.private_avl_get data_cmp hkeeps data.value
  have hfound : found ≠ none := by
    rw [Ne, hnone, hfind]
    exact Option.some_ne_none cell
  obtain ⟨footprint, hhangs, hown⟩ := h.owned
  obtain ⟨nodes', root, hremove, footprint', hhangs', hsub, hothers⟩ :=
    private_avl_remove_eq data_cmp hkeeps hhangs h.low h.bounded data.value
  rw [Finset.union_empty] at hsub
  obtain ⟨m₂, hfree, hnodes₂, hkeeps₂, hledger⟩ := pass_free_eq h.data data nodes'
  have hhangs₂ : Hangs (layout m₂.data) m₂.nodes root (avl_tree.erase data_cmp data.value tree)
      footprint' := by
    rw [hnodes₂]
    exact hangs_of_keeps hhangs' hkeeps₂
  have hbounded : (avl_tree.erase data_cmp data.value tree).height ≤ T.size :=
    (avl_tree.height_erase_le tree).trans h.bounded
  have hown₂ : Ledger base.nodes m₂.nodes footprint' [] := by
    rw [hnodes₂]
    exact hown.rebuild hsub hhangs'.live hothers
  refine ⟨m₂, root, ?_, hkeeps₂, ⟨⟨footprint', hhangs₂, hown₂⟩, hledger, avl_tree.low_erase h.low,
    hbounded⟩⟩
  rw [hpass] at hfree ⊢
  rw [← hnodes] at hget hremove
  have hvisit := visit_eq (Effect.write T.fd) hhangs₂ hbounded
  simp only [avl_remove, hload, hget, hremove, Result.ok_bind, if_neg hfound]
  by_cases hheap : data.free_data = true
  · rw [if_pos hheap] at hfree ⊢
    simp only [hfree, hvisit, Result.ok_bind]
    cases write_data <;> rfl
  · rw [if_neg hheap] at hfree ⊢
    simp only [hfree, hvisit, Result.ok_bind]
    cases write_data <;> rfl

/-- What is found is handed out as the address of the block that holds it. -/
theorem Represents.avl_get_eq (data_cmp : α → α → Int) (h : Represents base m T tree kept)
    (value : α) :
    ∃ found, avl_get data_cmp m T (.stack value) = .ok found ∧
      (found = none ↔ find (against data_cmp value) tree = none) ∧
      ∀ pointer, found = some pointer → ∃ cell, m.data.blocks pointer = some cell.2 ∧
        find (against data_cmp value) tree = some cell := by
  obtain ⟨found, hget, hnone, hsome⟩ := h.private_avl_get data_cmp (.refl _) value
  cases found with
  | none =>
    refine ⟨none, ?_, hnone, fun _ hfound => by cases hfound⟩
    simp [avl_get, Memory.load, hget]
  | some node =>
    obtain ⟨block, cell, hblock, hvalue, hcell⟩ := hsome node rfl
    refine ⟨some block.data, ?_, ?_, ?_⟩
    · simp [avl_get, Memory.load, hget, Heap.load_of_some hblock]
    · simp [hcell]
    · rintro _ ⟨⟩
      exact ⟨cell, hvalue, hcell⟩

end Operations

section Runs

variable {base : Memory α} {s s' : Memory α × avl_tree_t} {T T' : avl_tree.avl_tree_t α}
  {kept : Finset Nat} {data_cmp : α → α → Int}

/-- The tree in the heap and the one of the other model are the same. -/
def Refines (base : Memory α) (s : Memory α × avl_tree_t) (T : avl_tree.avl_tree_t α)
    (kept : Finset Nat) : Prop :=
  ∃ tree, Represents base s.1 s.2 tree kept ∧ avl_tree.Represents T tree ∧ T.fd = s.2.fd

/-- A call that is answered in both models alike. No block of data that was there is freed or
changed, and those that come to be are counted. -/
structure Answered (s s' : Memory α × avl_tree_t) (kept kept' : Finset Nat) (input : Call α)
    (reply : Reply α) (reply' : avl_tree.Reply α) : Prop where
  keeps : s.1.data.Keeps s'.1.data
  card_eq : kept'.card = kept.card + left_over input reply
  plain_eq : reply.plain = outside reply'
  found : ∀ pointer value, reply = .found (some (pointer, value)) →
    s'.1.data.blocks pointer = some value

/-- What the other model writes is written here, and what it frees is a block here. -/
theorem outside_add (code fd : Int) (value : α) (free_data write_data : Bool) :
    outside (.status code (avl_tree.addEffects fd value free_data write_data)) =
      .status code (if write_data then [.write fd value] else []) := by
  cases free_data <;> cases write_data <;> rfl

theorem outside_remove (code fd : Int) (value : α) (remaining : List α) (free_data write_data : Bool) :
    outside (.status code (avl_tree.removeEffects fd value remaining free_data write_data)) =
      .status code (if write_data then .ftruncate fd :: remaining.map (.write fd) else []) := by
  cases free_data <;> cases write_data <;> simp [outside, avl_tree.removeEffects]

section Equations

variable {data : Argument α} {write_data : Bool} {node_hint data_hint : Nat} {code : Int}
  {m : Memory α} {tree : avl_tree_t} {effects : List (Effect α)} {plain : List (Effect α)}

theorem call_add_eq (hadd : avl_add data_cmp (s.1.pass data).1 s.2 (s.1.pass data).2 data.free_data
      write_data node_hint data_hint = .ok (code, m, tree, effects)) :
    call data_cmp s (.add data write_data node_hint data_hint) =
      .ok ((m, tree), .status code effects) := by
  simp only [call, hadd, Result.ok_bind, Result.pure_eq_ok]

theorem call_remove_eq (hremove : avl_remove data_cmp (s.1.pass data).1 s.2 (s.1.pass data).2
      data.free_data write_data = .ok (code, m, tree, effects)) :
    call data_cmp s (.remove data write_data) = .ok ((m, tree), .status code effects) := by
  simp only [call, hremove, Result.ok_bind, Result.pure_eq_ok]

theorem plain_add_eq (hadd : avl_tree.avl_add data_cmp T data.value data.free_data write_data =
      .ok (code, T', plain)) :
    avl_tree.call data_cmp T (.add data.value data.free_data write_data) =
      .ok (T', .status code plain) := by
  simp only [avl_tree.call, hadd, Result.ok_bind, Result.pure_eq_ok]

theorem plain_remove_eq (hremove : avl_tree.avl_remove data_cmp T data.value data.free_data
      write_data = .ok (code, T', plain)) :
    avl_tree.call data_cmp T (.remove data.value data.free_data write_data) =
      .ok (T', .status code plain) := by
  simp only [avl_tree.call, hremove, Result.ok_bind, Result.pure_eq_ok]

end Equations

theorem Refines.add (h : Refines base s T kept) (data : Argument α) (write_data : Bool)
    (node_hint data_hint : Nat) :
    ∃ s' reply T' reply' kept',
      call data_cmp s (.add data write_data node_hint data_hint) = .ok (s', reply) ∧
      avl_tree.call data_cmp T (.add data.value data.free_data write_data) = .ok (T', reply') ∧
      Refines base s' T' kept' ∧
      Answered s s' kept kept' (.add data write_data node_hint data_hint) reply reply' := by
  obtain ⟨tree, hrep, hplain, hfd⟩ := h
  cases hfind : find (against data_cmp data.value) tree with
  | none =>
    obtain ⟨m₁, root, copy, hadd, hkeeps, hrep', hnot⟩ :=
      hrep.avl_add_ok hfind write_data node_hint data_hint
    obtain ⟨T₁, hadd', hplain', hfd', hsize⟩ :=
      avl_tree.avl_add_represents hplain hfind data.free_data write_data
    refine ⟨_, _, T₁, _, _, call_add_eq hadd, plain_add_eq hadd',
      ⟨_, hrep', hplain', hfd'.trans hfd⟩, hkeeps, ?_, ?_, fun _ _ hfound => by cases hfound⟩
    · rw [Finset.card_insert_of_notMem hnot]
      rfl
    · rw [outside_add, hfd]
      rfl
  | some cell =>
    obtain ⟨m₁, kept₁, hadd, hkeeps, hrep', hcard⟩ :=
      hrep.avl_add_duplicated hfind write_data node_hint data_hint
    have hadd' := avl_tree.avl_add_duplicated hplain hfind data.free_data write_data
    refine ⟨_, _, T, _, kept₁, call_add_eq hadd, plain_add_eq hadd',
      ⟨_, hrep', hplain, hfd⟩, hkeeps, hcard, rfl, fun _ _ hfound => by cases hfound⟩

theorem Refines.remove (h : Refines base s T kept) (data : Argument α) (write_data : Bool) :
    ∃ s' reply T' reply' kept', call data_cmp s (.remove data write_data) = .ok (s', reply) ∧
      avl_tree.call data_cmp T (.remove data.value data.free_data write_data) = .ok (T', reply') ∧
      Refines base s' T' kept' ∧
      Answered s s' kept kept' (.remove data write_data) reply reply' := by
  obtain ⟨tree, hrep, hplain, hfd⟩ := h
  cases hfind : find (against data_cmp data.value) tree with
  | none =>
    obtain ⟨m₁, kept₁, hremove, hkeeps, hrep', hcard⟩ := hrep.avl_remove_not_found hfind write_data
    have hremove' := avl_tree.avl_remove_not_found hplain hfind data.free_data write_data
    refine ⟨_, _, T, _, kept₁, call_remove_eq hremove, plain_remove_eq hremove',
      ⟨_, hrep', hplain, hfd⟩, hkeeps, hcard, rfl, fun _ _ hfound => by cases hfound⟩
  | some cell =>
    obtain ⟨m₁, root, hremove, hkeeps, hrep'⟩ := hrep.avl_remove_ok hfind write_data
    obtain ⟨T₁, hremove', hplain', hfd', hsize⟩ :=
      avl_tree.avl_remove_represents hplain hfind data.free_data write_data
    refine ⟨_, _, T₁, _, kept, call_remove_eq hremove, plain_remove_eq hremove',
      ⟨_, hrep', hplain', hfd'.trans hfd⟩, hkeeps, rfl, ?_, fun _ _ hfound => by cases hfound⟩
    rw [outside_remove, hfd]
    rfl

theorem Refines.get (data_cmp : α → α → Int) (h : Refines base s T kept) (value : α) :
    ∃ reply reply', call data_cmp s (.get value) = .ok (s, reply) ∧
      avl_tree.call data_cmp T (.get value) = .ok (T, reply') ∧
      Answered s s kept kept (.get value) reply reply' := by
  obtain ⟨tree, hrep, hplain, hfd⟩ := h
  obtain ⟨found, hget, hnone, hsome⟩ := hrep.avl_get_eq data_cmp value
  have hget' : avl_tree.avl_get data_cmp T value = _ :=
    avl_tree.avl_get_represents hplain value
  cases found with
  | none =>
    rw [hnone.mp rfl] at hget'
    refine ⟨.found none, .found none, ?_, ?_, .refl _, rfl, rfl, fun _ _ hfound => by cases hfound⟩
    · simp only [call, hget, Result.ok_bind, Result.pure_eq_ok]
    · simp only [avl_tree.call, hget', Result.ok_bind, Result.pure_eq_ok, Option.map_none]
  | some pointer =>
    obtain ⟨cell, hvalue, hcell⟩ := hsome pointer rfl
    rw [hcell] at hget'
    refine ⟨.found (some (pointer, cell.2)), .found (some cell.2), ?_, ?_, .refl _, rfl, rfl, ?_⟩
    · simp only [call, hget, Heap.load_of_some hvalue, Result.ok_bind, Result.pure_eq_ok]
    · simp only [avl_tree.call, hget', Result.ok_bind, Result.pure_eq_ok, Option.map_some]
    · rintro _ _ ⟨⟩
      exact hvalue

/-- The simulation of one call. -/
theorem Refines.call (h : Refines base s T kept) (input : Call α) :
    ∃ s' reply T' reply' kept', avl_heap.call data_cmp s input = .ok (s', reply) ∧
      avl_tree.call data_cmp T input.plain = .ok (T', reply') ∧ Refines base s' T' kept' ∧
      Answered s s' kept kept' input reply reply' := by
  cases input with
  | add data write_data node_hint data_hint => exact h.add data write_data node_hint data_hint
  | remove data write_data => exact h.remove data write_data
  | get value =>
    obtain ⟨reply, reply', hcall, hcall', hanswered⟩ := h.get data_cmp value
    exact ⟨s, reply, T, reply', kept, hcall, hcall', h, hanswered⟩

/-- The blocks of data that a run of calls leaves allocated. -/
def leftovers (calls : List (Call α)) (replies : List (Reply α)) : Nat :=
  (List.zipWith left_over calls replies).sum

/-- The simulation of a run. -/
theorem Refines.run (data_cmp : α → α → Int) (h : Refines base s T kept)
    (calls : List (Call α)) :
    ∃ s' replies T' replies' kept',
      transition.run (avl_heap.call data_cmp) s calls = .ok (s', replies) ∧
      transition.run (avl_tree.call data_cmp) T (calls.map Call.plain) = .ok (T', replies') ∧
      Refines base s' T' kept' ∧ s.1.data.Keeps s'.1.data ∧
      kept'.card = kept.card + leftovers calls replies ∧
      replies.map Reply.plain = replies'.map outside ∧
      ∀ pointer value, .found (some (pointer, value)) ∈ replies →
        s'.1.data.blocks pointer = some value := by
  induction calls generalizing s T kept with
  | nil => exact ⟨s, [], T, [], kept, rfl, rfl, h, .refl _, rfl, rfl, fun _ _ hmem => by cases hmem⟩
  | cons input calls ih =>
    obtain ⟨s₁, reply, T₁, reply', kept₁, hcall, hcall', h₁, hanswered⟩ := h.call input
    obtain ⟨s', replies, T', replies', kept', hrun, hrun', h', hkeeps, hcard, hplain, hfound⟩ := ih h₁
    refine ⟨s', reply :: replies, T', reply' :: replies', kept',
      (run_cons_eq_ok_iff _).mpr ⟨_, _, _, hcall, hrun, rfl⟩,
      (run_cons_eq_ok_iff _).mpr ⟨_, _, _, hcall', hrun', rfl⟩, h', hanswered.keeps.trans hkeeps,
      ?_, ?_, ?_⟩
    · rw [hcard, hanswered.card_eq, leftovers, leftovers, List.zipWith_cons_cons, List.sum_cons,
        Nat.add_assoc]
    · rw [List.map_cons, List.map_cons, hanswered.plain_eq, hplain]
    · intro pointer value hmem
      obtain heq | hmem := List.mem_cons.mp hmem
      · exact hkeeps _ _ (hanswered.found pointer value heq.symm)
      · exact hfound pointer value hmem

/-- Over an allocator that hands out freed blocks again, whichever it likes, no sequence of calls
reads, writes or frees a block that is not allocated, and all of them are answered as by the model
in which no block is handed out twice. Of the nodes just those of the elements are left. Of the
data no block is ever freed or changed: the address of an element that was handed out stays good,
also behind the removal of the element, and each call that adds something, or is refused what it was
handed over, leaves one block more. -/
theorem avl_heap_refines (data_cmp : α → α → Int) (fd : Int) (base : Memory α)
    (blocks : avl_tree.Nodes α) (calls : List (Call α)) :
    ∃ m T replies T' replies' es,
      transition.run (avl_heap.call data_cmp) (base, new_avl_tree fd) calls = .ok ((m, T), replies) ∧
      transition.run (avl_tree.call data_cmp) (avl_tree.new_avl_tree fd blocks)
        (calls.map Call.plain) = .ok (T', replies') ∧
      replies.map Reply.plain = replies'.map outside ∧
      visit m.data id T.size m.nodes T.root = .ok es ∧ avl_tree.avl_print_client T' id = .ok es ∧
      (∃ nodes : Finset Nat, nodes.card = es.length ∧ Ledger base.nodes m.nodes nodes []) ∧
      (∃ kept : Finset Nat, kept.card = leftovers calls replies ∧ Ledger base.data m.data kept []) ∧
      ∀ pointer value, .found (some (pointer, value)) ∈ replies →
        m.data.blocks pointer = some value := by
  have hstart : Refines base (base, new_avl_tree fd) (avl_tree.new_avl_tree fd blocks) ∅ :=
    ⟨.nil, new_avl_tree_represents base fd, avl_tree.new_avl_tree_represents fd blocks, rfl⟩
  obtain ⟨⟨m, T⟩, replies, T', replies', kept, hrun, hrun', ⟨tree, hrep, hplain, -⟩, -, hcard, hreplies,
    hfound⟩ := hstart.run data_cmp calls
  obtain ⟨nodes, hhangs, hown⟩ := hrep.owned
  refine ⟨m, T, replies, T', replies', elements tree, hrun, hrun', hreplies, ?_, ?_,
    ⟨nodes, ?_, hown⟩, ⟨kept, ?_, hrep.data⟩, hfound⟩
  · simpa using visit_eq id hhangs hrep.bounded
  · simpa using avl_tree.avl_print_client_stores ⟨tree, hplain, rfl⟩ (id : α → α)
  · rw [hhangs.card_eq, avl_tree.length_elements]
  · simpa using hcard

end Runs

end rc_project.avl_heap
