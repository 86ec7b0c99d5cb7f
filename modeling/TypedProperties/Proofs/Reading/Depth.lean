import Mathlib.Data.List.Nodup
import TypedProperties.Proofs.Reading.Tree

/-! How deep includes nest: where they nest deeper than there are files, a file includes itself. -/
namespace TypedProperties

/-- The failure of a read whose includes are nested too deeply. -/
inductive ReadError.TooDeep : ReadError → Prop
  | here (path : Text) : TooDeep (.access path .nestedTooDeep)
  | inside (location : Location) (path : Text) {error : ReadError} (deeper : TooDeep error) :
      TooDeep (.included location path error)

namespace FileTree

theorem walk_ne_nestedTooDeep (tree : FileTree) (start : Place) (parts : List Text) :
    tree.walk start parts ≠ .error .nestedTooDeep := by
  induction parts generalizing start with
  | nil => nofun
  | cons part parts ih =>
    rw [walk]
    split
    · nofun
    · nofun
    · split_ifs
      · exact ih start
      · exact ih _
      · nofun
      · exact ih _

theorem locate_ne_nestedTooDeep (tree : FileTree) (path : Text) : tree.locate path ≠ .error .nestedTooDeep := by
  unfold locate pathFault
  split_ifs
  · nofun
  · nofun
  · nofun
  · exact walk_ne_nestedTooDeep tree _ _

theorem read_ne_nestedTooDeep (tree : FileTree) (path : Text) : tree.read path ≠ .error .nestedTooDeep := by
  unfold read find
  cases located : tree.locate path with
  | error fault =>
    rintro ⟨⟩
    exact locate_ne_nestedTooDeep tree path located
  | ok place =>
    dsimp only
    cases tree.nodeAt place with
    | none => nofun
    | some node => cases node <;> nofun

end FileTree

namespace Reader

variable {ρ σ : Type} [Variants ρ] [Searches σ] {nested : Reader ρ σ → Text → Outcome} {world : World}
  {r : Reader ρ σ}

/-- A read that nests too deeply asks for a file on which its nested reads do. -/
theorem asks_of_tooDeep {file : Option Text} {destination : Store} {bytes : Bytes} {error : ReadError}
    (failed : (r.run nested world file destination bytes).result = .error error) (tooDeep : error.TooDeep) :
    ∃ before line after p r' path inner, (Lines.ofBytes bytes).complete = before ++ line :: after ∧
      r.Passes nested world (r.begin file destination) before p ∧ r.Asks world p line r' path ∧
      (nested r' path).result = .error inner ∧ inner.TooDeep := by
  unfold run at failed
  dsimp only at failed
  split at failed
  next failure stopped =>
    obtain rfl := Except.error.inj failed
    rcases steps_error stopped with ⟨q, access⟩ | ⟨before, line, after, p, lines, passed, stopped⟩
    · rw [access] at tooDeep
      cases tooDeep
    · refine ⟨before, line, after, p, ?_⟩
      rcases step_error stopped with ⟨text, role, ⟨q, fault, -, rfl⟩ | ⟨q, path, applied, included⟩⟩ |
        ⟨text, q, fault, -, -, rfl⟩
      · cases tooDeep
      · rcases includeFile_error included with ⟨inner, result, blamed⟩ | ⟨collision, blamed⟩
        · rw [blamed] at tooDeep
          cases tooDeep with
          | inside _ _ deeper => exact ⟨_, path, inner, lines, passed, ⟨text, q, role, applied, rfl⟩, result, deeper⟩
        · rw [blamed] at tooDeep
          cases tooDeep
      · cases tooDeep
  next =>
    unfold finish at failed
    split at failed
    next failure unclosed =>
      split at unclosed <;> cases unclosed
      obtain rfl := Except.error.inj failed
      cases tooDeep
    next => cases failed

end Reader

namespace Reading

variable {ρ σ : Type} [Variants ρ] [Searches σ] {world : World} {x y : Reading ρ σ} {error : ReadError}

def place? (world : World) (x : Reading ρ σ) : Option Place :=
  x.file.bind fun path => (world.tree.locate path).toOption

theorem place_of_opens (opens : Opens world x y) : ∃ place ∈ world.tree.nodes.map Prod.fst, y.place? world = some place := by
  cases opens with
  | file _ _ _ found =>
    obtain ⟨place, located, mem⟩ := FileTree.mem_of_read found
    exact ⟨place, List.mem_map_of_mem mem, by rw [place?, Option.bind_some, located]; rfl⟩

theorem opens_of_tooDeep {depth : Nat} (deep : x.depth = depth + 1) (failed : (x.outcome world).result = .error error)
    (tooDeep : error.TooDeep) :
    ∃ y error', Opens world x y ∧ y.depth = depth ∧ (y.outcome world).result = .error error' ∧ error'.TooDeep := by
  obtain ⟨before, line, after, p, r, path, inner, lines, passed, asks, result, deeper⟩ :=
    Reader.asks_of_tooDeep failed tooDeep
  cases found : world.tree.read path with
  | error fault =>
    simp only [nested, deep, Reader.runFile, found] at result
    obtain rfl := Except.error.inj result
    cases deeper
    exact (FileTree.read_ne_nestedTooDeep world.tree path found).elim
  | ok bytes =>
    rw [← outcome_of_file deep found] at result
    exact ⟨_, inner, .file deep ⟨⟨after, lines⟩, passed⟩ asks found, rfl, result, deeper⟩

/-- Some file includes itself, at some depth. -/
def Circular (world : World) (x : Reading ρ σ) : Prop :=
  ∃ y z place, Within world x y ∧ Includes world y z ∧ y.place? world = some place ∧ z.place? world = some place

/-- A read that nests too deeply opens files one in the other, down to its bound. -/
theorem exists_chain (failed : (x.outcome world).result = .error error) (tooDeep : error.TooDeep) :
    ∃ inner, List.IsChain (Opens world) (x :: inner) ∧ inner.length = x.depth := by
  induction depth : x.depth generalizing x error with
  | zero => exact ⟨[], .singleton x, rfl⟩
  | succ n ih =>
    obtain ⟨y, error', opens, below, failed', tooDeep'⟩ := opens_of_tooDeep depth failed tooDeep
    obtain ⟨inner, chain, length⟩ := ih failed' tooDeep' below
    exact ⟨y :: inner, .cons_cons opens chain, congrArg (· + 1) length⟩

theorem circular_of_tooDeep (deep : world.tree.nodes.length < x.depth)
    (failed : (x.outcome world).result = .error error) (tooDeep : error.TooDeep) : x.Circular world := by
  obtain ⟨inner, chain, length⟩ := exists_chain failed tooDeep
  have nests : (x :: inner).Pairwise (Includes world) :=
    (chain.imp fun _ _ => Relation.TransGen.single).pairwise
  obtain ⟨below, nests⟩ := List.pairwise_cons.mp nests
  have places : ∀ y ∈ inner, ∃ place ∈ world.tree.nodes.map Prod.fst, y.place? world = some place := fun y mem => by
    rcases Relation.TransGen.tail'_iff.mp (below y mem) with ⟨z, -, opens⟩
    exact place_of_opens opens
  by_contra apart
  -- Else the files of the chain are all different, and there are not so many.
  have distinct : (inner.map (place? world)).Nodup := by
    refine List.pairwise_map.mpr (nests.imp_of_mem fun {y z} mem mem' includes same => ?_)
    obtain ⟨place, -, here⟩ := places y mem
    exact apart ⟨y, z, place, (below y mem).to_reflTransGen, includes, here, same ▸ here⟩
  have inside : inner.map (place? world) ⊆ (world.tree.nodes.map Prod.fst).map some := fun here mem => by
    obtain ⟨y, opened, rfl⟩ := List.mem_map.mp mem
    obtain ⟨place, stands, here⟩ := places y opened
    rw [here]
    exact List.mem_map_of_mem stands
  have few := distinct.length_le_of_subset inside
  rw [List.length_map, List.length_map, List.length_map, length] at few
  omega

end Reading

theorem World.lt_nestingBound (world : World) : world.tree.nodes.length + 1 < world.nestingBound := by
  have more : 1 < world.tree.nodes.length + 3 := by omega
  exact (Nat.lt_mul_iff_one_lt_right (Nat.succ_pos _)).mpr more

namespace Reader

variable {ρ σ : Type} [Variants ρ] [Searches σ]

/-- Includes are nested too deeply only where a file includes itself. -/
theorem nested_too_deep_only_in_circles (world : World) (r : Reader ρ σ) (destination : Store) {error : ReadError}
    (tooDeep : error.TooDeep) :
    (∀ bytes, (r.readInto world destination bytes).2.result = .error error →
      (Reading.mk world.nestingBound r none destination bytes).Circular world) ∧
    ∀ path, (r.readFileInto world destination path).2.result = .error error →
      ∃ depth bytes, world.tree.read path = .ok bytes ∧
        (Reading.mk depth r (some path) destination bytes).Circular world := by
  have bound := world.lt_nestingBound
  refine ⟨fun bytes failed => Reading.circular_of_tooDeep (by dsimp only; omega) failed tooDeep, fun path failed => ?_⟩
  obtain ⟨depth, deep⟩ : ∃ depth, world.nestingBound = depth + 1 := Nat.exists_eq_succ_of_ne_zero (by omega)
  have failed : (runFile world world.nestingBound r destination path).result = .error error := failed
  rw [deep, runFile] at failed
  cases found : world.tree.read path with
  | error fault =>
    rw [found] at failed
    obtain rfl := Except.error.inj failed
    cases tooDeep
    exact (FileTree.read_ne_nestedTooDeep world.tree path found).elim
  | ok bytes =>
    rw [found] at failed
    exact ⟨depth, bytes, rfl, Reading.circular_of_tooDeep (by dsimp only; omega) failed tooDeep⟩

end Reader
end TypedProperties
