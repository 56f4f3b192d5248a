import AokChain.Mempool.Entries
import AokChain.Lib.Closure

/-!
# What the package searches find

`CalculateMemPoolAncestors` and `CalculateDescendants` are worklist searches
over `mapLinks`.  On a pool whose links name entries of the pool, each runs to
the end of its work within the fuel the model gives it, and finds exactly the
entries the parent, or child, links reach: the searches are instances of
`Closure.Search`.  Without limits the ancestor search never fails.
-/

namespace AokChain
namespace Packages
namespace CTxMemPool

open Relation Closure

variable (nBytesPerSigOp : ℕ) (pool : CTxMemPool)

/-- `p` is linked as a parent of `x`. -/
def LinkParent (x p : uint256) : Prop := p ∈ pool.getMemPoolParents x

/-- `c` is linked as a child of `x`. -/
def LinkChild (x c : uint256) : Prop := c ∈ pool.getMemPoolChildren x

/-- The links name entries of the pool, and each parent set is free of repetition. -/
structure LinksWithin : Prop where
  parents_mem : ∀ x p, p ∈ pool.getMemPoolParents x → p ∈ pool.mapTx
  children_mem : ∀ x c, c ∈ pool.getMemPoolChildren x → c ∈ pool.mapTx
  parents_nodup : ∀ x, (pool.getMemPoolParents x).Nodup

section Stage

/-- A loop that inserts the elements satisfying `q`. -/
theorem mem_foldl_insertIf {q : uint256 → Prop} [DecidablePred q] {y : uint256} :
    ∀ {s ps : setEntries}, y ∈ ps.foldl (fun s p => if q p then insertEntry p s else s) s ↔ y ∈ s ∨ (y ∈ ps ∧ q y)
  | s, [] => by simp
  | s, p :: ps => by
    rw [List.foldl_cons, mem_foldl_insertIf]
    by_cases hp : q p
    · rw [if_pos hp, mem_insertEntry, List.mem_cons]
      constructor
      · rintro ((rfl | h) | ⟨h, hy⟩)
        · exact .inr ⟨.inl rfl, hp⟩
        · exact .inl h
        · exact .inr ⟨.inr h, hy⟩
      · rintro (h | ⟨rfl | h, hy⟩)
        · exact .inl (.inr h)
        · exact .inl (.inl rfl)
        · exact .inr ⟨h, hy⟩
    · rw [if_neg hp, List.mem_cons]
      constructor
      · rintro (h | ⟨h, hy⟩)
        · exact .inl h
        · exact .inr ⟨.inr h, hy⟩
      · rintro (h | ⟨rfl | h, hy⟩)
        · exact .inl h
        · exact absurd hy hp
        · exact .inr ⟨h, hy⟩

theorem nodup_foldl_insertIf {q : uint256 → Prop} [DecidablePred q] :
    ∀ {s ps : setEntries}, s.Nodup → (ps.foldl (fun s p => if q p then insertEntry p s else s) s).Nodup
  | _, [], h => h
  | s, p :: ps, h => by
    have h' : (if q p then insertEntry p s else s).Nodup := by
      split
      · exact nodup_insertEntry h
      · exact h
    rw [List.foldl_cons]
    exact nodup_foldl_insertIf h'

/-- A loop that inserts an element for each of `l`. -/
theorem mem_foldl_insertEntry {α : Type} (f : α → uint256) {y : uint256} :
    ∀ {s : setEntries} {l : List α}, y ∈ l.foldl (fun s a => insertEntry (f a) s) s ↔ y ∈ s ∨ ∃ a ∈ l, f a = y
  | s, [] => by simp
  | s, a :: l => by
    rw [List.foldl_cons, mem_foldl_insertEntry, mem_insertEntry]
    constructor
    · rintro ((rfl | h) | ⟨a', ha', rfl⟩)
      · exact .inr ⟨a, List.mem_cons_self, rfl⟩
      · exact .inl h
      · exact .inr ⟨a', List.mem_cons_of_mem a ha', rfl⟩
    · rintro (h | ⟨a', ha', rfl⟩)
      · exact .inl (.inr h)
      · rcases List.mem_cons.mp ha' with rfl | ha'
        · exact .inl (.inl rfl)
        · exact .inr ⟨a', ha', rfl⟩

theorem stageNew_eq (done stage ps : setEntries) :
    stageNew done stage ps = ps.foldl (fun s p => if p ∉ done then insertEntry p s else s) stage := by
  simp only [stageNew, ite_not]

theorem mem_stageNew {done stage ps : setEntries} {y : uint256} :
    y ∈ stageNew done stage ps ↔ y ∈ stage ∨ (y ∈ ps ∧ y ∉ done) := by
  rw [stageNew_eq, mem_foldl_insertIf]

theorem nodup_stageNew {done stage ps : setEntries} (h : stage.Nodup) : (stageNew done stage ps).Nodup := by
  rw [stageNew_eq]
  exact nodup_foldl_insertIf h

/-- The loop over an ancestor's parents stages the new ones, or stops at the count limit. -/
theorem stageParents_eq_ok {limit : ℕ} {setAncestors : setEntries} :
    ∀ {parentHashes ps r : setEntries}, stageParents limit setAncestors parentHashes ps = .ok r →
      r = stageNew setAncestors parentHashes ps
  | _, [], r, h => by simpa [stageParents, stageNew] using h.symm
  | parentHashes, p :: ps, r, h => by
    -- the staged set is named first, so that only the limit check is split
    show r = stageNew setAncestors (if p ∈ setAncestors then parentHashes else insertEntry p parentHashes) ps
    simp only [stageParents] at h
    generalize (if p ∈ setAncestors then parentHashes else insertEntry p parentHashes) = staged at h ⊢
    split at h
    · cases h
    · exact stageParents_eq_ok h

theorem stageParents_noLimit {setAncestors : setEntries} :
    ∀ {parentHashes ps : setEntries},
      stageParents (2 ^ 64 - 1) setAncestors parentHashes ps = .ok (stageNew setAncestors parentHashes ps)
  | _, [] => rfl
  | parentHashes, p :: ps => by
    show _ = Except.ok (stageNew setAncestors (if p ∈ setAncestors then parentHashes else insertEntry p parentHashes) ps)
    simp only [stageParents]
    generalize (if p ∈ setAncestors then parentHashes else insertEntry p parentHashes) = staged
    have := Nat.mod_lt (staged.length + setAncestors.length + 1) (Nat.two_pow_pos 64)
    rw [if_neg (by omega)]
    exact stageParents_noLimit

end Stage

section Frontier

/-- What both searches keep of their sets from round to round, besides
`Closure.Search`: the work and the entries done are disjoint sets of entries
of the pool. -/
structure Frontier (done work : setEntries) : Prop where
  work_nodup : work.Nodup
  done_nodup : done.Nodup
  disjoint : ∀ x ∈ work, x ∉ done
  work_mem : ∀ x ∈ work, x ∈ pool.mapTx
  done_mem : ∀ x ∈ done, x ∈ pool.mapTx

variable {pool}

theorem Frontier.length_le {done work : setEntries} (hf : pool.Frontier done work) :
    done.length ≤ pool.mapTx.keys.length :=
  (hf.done_nodup.subperm fun x hx => AList.mem_keys.mp (hf.done_mem x hx)).length_le

theorem Frontier.lookup {done rest : setEntries} {x : uint256} (hf : pool.Frontier done (x :: rest)) :
    ∃ e, pool.mapTx.lookup x = some e :=
  Option.isSome_iff_exists.mp (AList.lookup_isSome.mpr (hf.work_mem x List.mem_cons_self))

/-- One round: the first entry of the work is done, and the entries `ps` it
links to that are not done join the rest of the work. -/
theorem Frontier.step {done rest ps : setEntries} {x : uint256} (hf : pool.Frontier done (x :: rest))
    (hps : ∀ y ∈ ps, y ∈ pool.mapTx) :
    pool.Frontier (insertEntry x done) (stageNew (insertEntry x done) rest ps) where
  work_nodup := nodup_stageNew (List.nodup_cons.mp hf.work_nodup).2
  done_nodup := nodup_insertEntry hf.done_nodup
  disjoint y hy := by
    rcases mem_stageNew.mp hy with hrest | ⟨-, hnew⟩
    · have hx : x ∉ rest := (List.nodup_cons.mp hf.work_nodup).1
      have hyd : y ∉ done := hf.disjoint y (List.mem_cons_of_mem x hrest)
      rw [mem_insertEntry]
      rintro (rfl | h)
      · exact hx hrest
      · exact hyd h
    · exact hnew
  work_mem y hy := by
    rcases mem_stageNew.mp hy with hy | ⟨hy, -⟩
    · exact hf.work_mem y (List.mem_cons_of_mem x hy)
    · exact hps y hy
  done_mem y hy := by
    rcases mem_insertEntry.mp hy with rfl | hy
    · exact hf.work_mem y List.mem_cons_self
    · exact hf.done_mem y hy

theorem Frontier.length_step {done rest : setEntries} {x : uint256} (hf : pool.Frontier done (x :: rest)) :
    (insertEntry x done).length = done.length + 1 :=
  length_insertEntry (hf.disjoint x List.mem_cons_self)

/-- The same round, for the search: `ps` are the entries `x` is related to. -/
theorem search_stage {r : uint256 → uint256 → Prop} {start : uint256 → Prop} {done rest ps : setEntries}
    {x : uint256} (hs : Search r start done (x :: rest)) (hps : ∀ y, y ∈ ps ↔ r x y) :
    Search r start (insertEntry x done) (stageNew (insertEntry x done) rest ps) := by
  refine hs.step List.mem_cons_self (fun y => mem_insertEntry) ?_ ?_
  · intro y hy
    rcases mem_stageNew.mp hy with hy | ⟨hy, -⟩
    · exact .inl (List.mem_cons_of_mem x hy)
    · exact .inr ((hps y).mp hy)
  · intro y hy
    by_cases hdone : y ∈ insertEntry x done
    · exact .inl hdone
    · refine .inr (mem_stageNew.mpr ?_)
      rcases hy with hy | hy
      · rcases List.mem_cons.mp hy with rfl | hy
        · exact absurd (mem_insertEntry.mpr (.inl rfl)) hdone
        · exact .inl hy
      · exact .inr ⟨(hps y).mpr hy, hdone⟩

/-- Before the first round, with nothing done: the work is the start. -/
theorem Frontier.init {work : setEntries} (hnodup : work.Nodup) (hmem : ∀ x ∈ work, x ∈ pool.mapTx) :
    pool.Frontier [] work :=
  ⟨hnodup, List.nodup_nil, fun _ _ => List.not_mem_nil, hmem, fun _ h => absurd h List.not_mem_nil⟩

theorem search_init {r : uint256 → uint256 → Prop} {work : setEntries} :
    Search r (· ∈ work) [] work :=
  Search.init (fun _ h => absurd h List.not_mem_nil) (fun _ h => h) (fun _ h => .inr h)
    (fun _ h => absurd h List.not_mem_nil)

end Frontier

section Ancestors

variable {pool}

theorem toNat_emod_le (x : ℤ) : (x % 2 ^ 64).toNat ≤ 2 ^ 64 - 1 := by
  have := Int.emod_lt_of_pos x (show (0 : ℤ) < 2 ^ 64 by decide)
  omega

/-- Without limits no check of the ancestor loop fires. -/
theorem ancestorsLoop_noLimits {entrySize : ℕ} :
    ∀ {fuel : ℕ} {work done : setEntries} {total : ℤ},
      (pool.ancestorsLoop nBytesPerSigOp entrySize noLimits fuel work done total).2 = none
  | 0, _, _, _ => rfl
  | _ + 1, [], _, _ => rfl
  | fuel + 1, stageit :: work, done, total => by
    unfold ancestorsLoop
    split
    · rfl
    · simp only [noLimits, gt_iff_lt, not_lt.mpr (toNat_emod_le _), if_false, stageParents_noLimit]
      exact ancestorsLoop_noLimits

/-- A round of the ancestor loop that does not stop: the next rounds go on
from the parents of the entry staged. -/
theorem ancestorsLoop_succ {entrySize : ℕ} {limits : Limits} {fuel : ℕ} {stageit : uint256}
    {work done : setEntries} {total : ℤ} {e : CTxMemPoolEntry} (hstage : pool.mapTx.lookup stageit = some e)
    (h : (pool.ancestorsLoop nBytesPerSigOp entrySize limits (fuel + 1) (stageit :: work) done total).2 = none) :
    ∃ total', pool.ancestorsLoop nBytesPerSigOp entrySize limits (fuel + 1) (stageit :: work) done total =
      pool.ancestorsLoop nBytesPerSigOp entrySize limits fuel
        (stageNew (insertEntry stageit done) work (pool.getMemPoolParents stageit)) (insertEntry stageit done) total' := by
  simp only [ancestorsLoop, hstage] at h ⊢
  split_ifs at h ⊢
  split at h
  · cases h
  · rename_i hparents
    rw [stageParents_eq_ok hparents]
    exact ⟨_, rfl⟩

/-- The ancestor loop, run to the end of its work: from every state a search
of the parent links keeps, it finds what the links reach from the start. -/
theorem ancestorsLoop_spec (hL : pool.LinksWithin) {entrySize : ℕ} {limits : Limits} {start : uint256 → Prop} :
    ∀ {fuel : ℕ} {work done : setEntries} {total : ℤ}, Search pool.LinkParent start done work →
      pool.Frontier done work → pool.mapTx.keys.length < done.length + fuel →
      (pool.ancestorsLoop nBytesPerSigOp entrySize limits fuel work done total).2 = none →
      (pool.ancestorsLoop nBytesPerSigOp entrySize limits fuel work done total).1.Nodup ∧
        ∀ y, y ∈ (pool.ancestorsLoop nBytesPerSigOp entrySize limits fuel work done total).1 ↔
          ∃ x, start x ∧ ReflTransGen pool.LinkParent x y
  | 0, _, _, _, _, hf, hfuel, _ => absurd hf.length_le (by omega)
  | _ + 1, [], done, _, hs, hf, _, _ => ⟨hf.done_nodup, hs.mem_done_iff⟩
  | fuel + 1, stageit :: work, done, total, hs, hf, hfuel, h => by
    obtain ⟨e, he⟩ := hf.lookup
    obtain ⟨total', heq⟩ := ancestorsLoop_succ nBytesPerSigOp he h
    rw [heq] at h ⊢
    have hfuel' : pool.mapTx.keys.length < (insertEntry stageit done).length + fuel := by
      rw [hf.length_step]
      omega
    exact ancestorsLoop_spec hL (search_stage hs fun _ => Iff.rfl)
      (hf.step (hL.parents_mem stageit)) hfuel' h

/-- The search for the parents of a new transaction: the entries of the pool
its inputs spend, or an error at the count limit. -/
theorem searchParents_eq_ok {limit : ℕ} :
    ∀ {parentHashes : setEntries} {vin : List CTxIn} {r : setEntries},
      pool.searchParents limit parentHashes vin = .ok r → parentHashes.Nodup →
        r.Nodup ∧ ∀ y, y ∈ r ↔ y ∈ parentHashes ∨ (y ∈ pool.mapTx ∧ ∃ txin ∈ vin, txin.prevout.hash = y)
  | _, [], r, h, hnodup => by
    cases h
    exact ⟨hnodup, fun y => by simp⟩
  | parentHashes, txin :: vin, r, h, hnodup => by
    simp only [searchParents] at h
    split_ifs at h with hmem
    · obtain ⟨hr, hmemr⟩ := searchParents_eq_ok h (nodup_insertEntry hnodup)
      refine ⟨hr, fun y => ?_⟩
      rw [hmemr, mem_insertEntry]
      constructor
      · rintro ((rfl | hy) | ⟨hy, txin', htxin', rfl⟩)
        · exact .inr ⟨hmem, txin, List.mem_cons_self, rfl⟩
        · exact .inl hy
        · exact .inr ⟨hy, txin', List.mem_cons_of_mem _ htxin', rfl⟩
      · rintro (hy | ⟨hy, txin', htxin', rfl⟩)
        · exact .inl (.inr hy)
        · rcases List.mem_cons.mp htxin' with rfl | htxin'
          · exact .inl (.inl rfl)
          · exact .inr ⟨hy, txin', htxin', rfl⟩
    · obtain ⟨hr, hmemr⟩ := searchParents_eq_ok h hnodup
      refine ⟨hr, fun y => ?_⟩
      rw [hmemr]
      constructor
      · rintro (hy | ⟨hy, txin', htxin', rfl⟩)
        · exact .inl hy
        · exact .inr ⟨hy, txin', List.mem_cons_of_mem _ htxin', rfl⟩
      · rintro (hy | ⟨hy, txin', htxin', rfl⟩)
        · exact .inl hy
        · rcases List.mem_cons.mp htxin' with rfl | htxin'
          · exact absurd hy hmem
          · exact .inr ⟨hy, txin', htxin', rfl⟩

theorem searchParents_noLimit :
    ∀ {parentHashes : setEntries} {vin : List CTxIn}, ∃ r, pool.searchParents (2 ^ 64 - 1) parentHashes vin = .ok r
  | _, [] => ⟨_, rfl⟩
  | parentHashes, txin :: vin => by
    simp only [searchParents]
    split_ifs with _ hlimit
    · have := Nat.mod_lt ((insertEntry txin.prevout.hash parentHashes).length + 1) (Nat.two_pow_pos 64)
      omega
    · exact searchParents_noLimit
    · exact searchParents_noLimit

/-- `CalculateMemPoolAncestors` with no limits never fails. -/
theorem calculateMemPoolAncestors_noLimits {hash : uint256} {entry : CTxMemPoolEntry} {fSearchForParents : Bool} :
    (pool.calculateMemPoolAncestors nBytesPerSigOp hash entry noLimits fSearchForParents).2 = none := by
  unfold calculateMemPoolAncestors
  cases fSearchForParents with
  | false => exact ancestorsLoop_noLimits nBytesPerSigOp
  | true =>
    obtain ⟨r, hr⟩ := @searchParents_noLimit pool [] entry.tx.vin
    simp only [noLimits, if_true, hr]
    exact ancestorsLoop_noLimits nBytesPerSigOp

/-- For an entry of the pool, where `CalculateMemPoolAncestors` succeeds it
finds the entries the parent links reach from it. -/
theorem calculateMemPoolAncestors_links (hL : pool.LinksWithin) {hash : uint256} {entry : CTxMemPoolEntry}
    {limits : Limits} {setAncestors : setEntries}
    (h : pool.calculateMemPoolAncestors nBytesPerSigOp hash entry limits false = (setAncestors, none)) :
    setAncestors.Nodup ∧ ∀ y, y ∈ setAncestors ↔ TransGen pool.LinkParent hash y := by
  unfold calculateMemPoolAncestors at h
  simp only [Bool.false_eq_true, if_false] at h
  have hf : pool.Frontier [] (pool.getMemPoolParents hash) :=
    Frontier.init (hL.parents_nodup hash) (hL.parents_mem hash)
  have hfuel : pool.mapTx.keys.length < ([] : setEntries).length + (pool.mapTx.keys.length + 1) := by simp
  obtain ⟨hnodup, hmem⟩ := ancestorsLoop_spec nBytesPerSigOp hL search_init hf hfuel (by rw [h])
  rw [h] at hnodup hmem
  exact ⟨hnodup, fun y => (hmem y).trans (TransGen.head'_iff (r := pool.LinkParent)).symm⟩

/-- For a transaction not yet in the pool, where `CalculateMemPoolAncestors`
succeeds it finds the entries its inputs spend and what their parent links
reach. -/
theorem calculateMemPoolAncestors_search (hL : pool.LinksWithin) {hash : uint256} {entry : CTxMemPoolEntry}
    {limits : Limits} {setAncestors : setEntries}
    (h : pool.calculateMemPoolAncestors nBytesPerSigOp hash entry limits true = (setAncestors, none)) :
    setAncestors.Nodup ∧ ∀ y, y ∈ setAncestors ↔
      ∃ x, (x ∈ pool.mapTx ∧ ∃ txin ∈ entry.tx.vin, txin.prevout.hash = x) ∧ ReflTransGen pool.LinkParent x y := by
  unfold calculateMemPoolAncestors at h
  simp only [if_true] at h
  split at h
  · cases h
  · rename_i parentHashes hparents
    obtain ⟨hnodup₀, hmem₀⟩ := searchParents_eq_ok hparents List.nodup_nil
    have hf : pool.Frontier [] parentHashes :=
      Frontier.init hnodup₀ fun x hx => (((hmem₀ x).mp hx).resolve_left List.not_mem_nil).1
    have hfuel : pool.mapTx.keys.length < ([] : setEntries).length + (pool.mapTx.keys.length + 1) := by simp
    obtain ⟨hnodup, hmem⟩ := ancestorsLoop_spec nBytesPerSigOp hL search_init hf hfuel (by rw [h])
    rw [h] at hnodup hmem
    refine ⟨hnodup, fun y => (hmem y).trans ?_⟩
    simp only [hmem₀, List.not_mem_nil, false_or]

end Ancestors

section Descendants

variable {pool}

theorem descendantsLoop_succ {fuel : ℕ} {it : uint256} {work done : setEntries} :
    pool.descendantsLoop (fuel + 1) (it :: work) done =
      pool.descendantsLoop fuel (stageNew (insertEntry it done) work (pool.getMemPoolChildren it)) (insertEntry it done) :=
  rfl

/-- The descendant loop, run to the end of its work, finds what the child
links reach from the start. -/
theorem descendantsLoop_spec (hL : pool.LinksWithin) {start : uint256 → Prop} :
    ∀ {fuel : ℕ} {work done : setEntries}, Search pool.LinkChild start done work →
      pool.Frontier done work → pool.mapTx.keys.length < done.length + fuel →
      (pool.descendantsLoop fuel work done).Nodup ∧
        ∀ y, y ∈ pool.descendantsLoop fuel work done ↔ ∃ x, start x ∧ ReflTransGen pool.LinkChild x y
  | 0, _, _, _, hf, hfuel => absurd hf.length_le (by omega)
  | _ + 1, [], done, hs, hf, _ => ⟨hf.done_nodup, hs.mem_done_iff⟩
  | fuel + 1, it :: work, done, hs, hf, hfuel => by
    rw [descendantsLoop_succ]
    have hfuel' : pool.mapTx.keys.length < (insertEntry it done).length + fuel := by
      rw [hf.length_step]
      omega
    exact descendantsLoop_spec hL (search_stage hs fun _ => Iff.rfl) (hf.step (hL.children_mem it)) hfuel'

/-- `CalculateDescendants` adds the entry and what the child links reach from
it to a set that holds, with each of its entries, all that entry's
descendants, as the source assumes. -/
theorem calculateDescendants_spec (hL : pool.LinksWithin) {entryit : uint256} (hmem : entryit ∈ pool.mapTx)
    {setDescendants : setEntries} (hnodup : setDescendants.Nodup) (hsub : ∀ x ∈ setDescendants, x ∈ pool.mapTx)
    (hclosed : ∀ x ∈ setDescendants, ∀ y, pool.LinkChild x y → y ∈ setDescendants) :
    (pool.calculateDescendants entryit setDescendants).Nodup ∧
      ∀ y, y ∈ pool.calculateDescendants entryit setDescendants ↔
        y ∈ setDescendants ∨ ReflTransGen pool.LinkChild entryit y := by
  let stage : setEntries := if entryit ∈ setDescendants then [] else [entryit]
  let start : uint256 → Prop := fun x => x ∈ setDescendants ∨ x = entryit
  have hstage : ∀ x ∈ stage, x = entryit ∧ x ∉ setDescendants := by
    intro x hx
    by_cases h : entryit ∈ setDescendants
    · simp [stage, h] at hx
    · simp only [stage, h, if_false, List.mem_singleton] at hx
      exact ⟨hx, hx ▸ h⟩
  have hf : pool.Frontier setDescendants stage :=
    { work_nodup := by by_cases h : entryit ∈ setDescendants <;> simp [stage, h]
      done_nodup := hnodup
      disjoint := fun x hx => (hstage x hx).2
      work_mem := fun x hx => (hstage x hx).1 ▸ hmem
      done_mem := hsub }
  have hs : Search pool.LinkChild start setDescendants stage := by
    refine Search.init (fun x hx => .inl hx) (fun x hx => .inr (hstage x hx).1) ?_ hclosed
    rintro x (hx | rfl)
    · exact .inl hx
    · by_cases h : x ∈ setDescendants
      · exact .inl h
      · exact .inr (by simp [stage, h])
  have hfuel : pool.mapTx.keys.length < setDescendants.length + (pool.mapTx.keys.length + 1) := by omega
  obtain ⟨hnodup', hmem'⟩ := descendantsLoop_spec hL hs hf hfuel
  refine ⟨hnodup', fun y => (hmem' y).trans ⟨?_, ?_⟩⟩
  · rintro ⟨x, hx | rfl, hreach⟩
    · -- a set closed under the child links holds all that its entries reach
      left
      induction hreach with
      | refl => exact hx
      | tail _ hbc ih => exact hclosed _ ih _ hbc
    · exact .inr hreach
  · rintro (hy | hreach)
    · exact ⟨y, .inl hy, .refl⟩
    · exact ⟨entryit, .inr rfl, hreach⟩

end Descendants

end CTxMemPool
end Packages
end AokChain
