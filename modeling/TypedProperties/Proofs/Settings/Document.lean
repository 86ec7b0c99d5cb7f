import Mathlib.Data.List.Nodup
import TypedProperties.Proofs.Lookup
import TypedProperties.Settings.Toml.Document

/-! No table of a settings file has a key twice: each entry and each header goes where its key is new. -/
namespace TypedProperties

inductive Setting.KeysOnce : Setting → Prop
  | intro {s : Setting} (keys : (s.entries.map Prod.fst).Nodup) (fields : ∀ e ∈ s.entries, KeysOnce e.2)
      (items : ∀ i ∈ s.items, KeysOnce i) : KeysOnce s

namespace Setting

theorem KeysOnce.of_bare {s : Setting} (no_entries : s.entries = []) (no_items : s.items = []) : s.KeysOnce := by
  refine ⟨?_, ?_, ?_⟩ <;> simp [no_entries, no_items]

theorem keysOnce_list {items : List Setting} : (list items).KeysOnce ↔ ∀ i ∈ items, i.KeysOnce := by
  constructor
  · rintro ⟨-, -, each⟩
    exact each
  · intro each
    exact ⟨.nil, fun _ mem => (List.not_mem_nil mem).elim, each⟩

theorem keysOnce_table {entries : List (Text × Setting)} :
    (table entries).KeysOnce ↔ (entries.map Prod.fst).Nodup ∧ ∀ e ∈ entries, e.2.KeysOnce := by
  constructor
  · rintro ⟨keys, fields, -⟩
    exact ⟨keys, fields⟩
  · rintro ⟨keys, fields⟩
    exact ⟨keys, fields, fun _ mem => (List.not_mem_nil mem).elim⟩

end Setting

namespace Toml

theorem settings_eq_map (nodes : Nodes) : settings nodes = nodes.map fun e => (e.1, e.2.setting) := by
  induction nodes with
  | nil => rw [settings, List.map_nil]
  | cons e nodes ih => rw [settings, ih, List.map_cons]

theorem settingLists_eq_map (all : List Nodes) : settingLists all = all.map fun nodes => .table (settings nodes) := by
  induction all with
  | nil => rw [settingLists, List.map_nil]
  | cons nodes all ih => rw [settingLists, ih, List.map_cons]

def KeysOnce (nodes : Nodes) : Prop := (Setting.table (settings nodes)).KeysOnce

variable {key : Text} {node : Node} {nodes nodes' : Nodes}

theorem keysOnce_iff : KeysOnce nodes ↔ (nodes.map Prod.fst).Nodup ∧ ∀ e ∈ nodes, e.2.setting.KeysOnce := by
  rw [KeysOnce, Setting.keysOnce_table, settings_eq_map, List.map_map, List.forall_mem_map]
  rfl

theorem keysOnce_nil : KeysOnce [] := keysOnce_iff.mpr ⟨.nil, fun _ mem => (List.not_mem_nil mem).elim⟩

theorem keysOnce_table {origin : Origin} : (Node.table origin nodes).setting.KeysOnce ↔ KeysOnce nodes := by
  rw [Node.setting, KeysOnce]

theorem keysOnce_tables {all : List Nodes} :
    (Node.tables all).setting.KeysOnce ↔ ∀ nodes ∈ all, KeysOnce nodes := by
  rw [Node.setting, Setting.keysOnce_list, settingLists_eq_map, List.forall_mem_map]
  rfl

theorem KeysOnce.of_lookup (once : KeysOnce nodes) (found : nodes.lookup key = some node) :
    node.setting.KeysOnce :=
  (keysOnce_iff.mp once).2 (key, node) (mem_of_lookup found)

theorem KeysOnce.putNode (once : KeysOnce nodes) (inside : node.setting.KeysOnce) :
    KeysOnce (putNode key node nodes) := by
  obtain ⟨keys, fields⟩ := keysOnce_iff.mp once
  refine keysOnce_iff.mpr ⟨?_, fun e mem => ?_⟩
  · rw [Toml.putNode, List.map_append]
    refine List.nodup_append.mpr ⟨keys.sublist (List.filter_sublist.map _), List.nodup_singleton key, ?_⟩
    simp
  · rcases List.mem_append.mp mem with kept | new
    · exact fields e (List.mem_filter.mp kept).1
    · obtain rfl := List.mem_singleton.mp new
      exact inside

theorem KeysOnce.within {dotted : Bool} {change : Origin → Nodes → Option Nodes} {path : List Text} {origin : Origin}
    (kept : ∀ {origin inner inner'}, change origin inner = some inner' → KeysOnce inner → KeysOnce inner')
    (made : within dotted change path origin nodes = some nodes') (once : KeysOnce nodes) : KeysOnce nodes' := by
  -- Along the path each table is put back with its inner one changed, so `putNode` is all that happens to its keys.
  induction path generalizing origin nodes nodes' with
  | nil => exact kept made once
  | cons key rest ih =>
    rw [Toml.within] at made
    split at made
    next =>
      obtain ⟨inner, deeper, rfl⟩ := Option.map_eq_some_iff.mp made
      exact once.putNode (keysOnce_table.mpr (ih deeper keysOnce_nil))
    next => cases made
    next found =>
      split at made
      next => cases made
      next =>
        obtain ⟨inner, deeper, rfl⟩ := Option.map_eq_some_iff.mp made
        exact once.putNode (keysOnce_table.mpr (ih deeper (keysOnce_table.mp (once.of_lookup found))))
    next all found =>
      have each := keysOnce_tables.mp (once.of_lookup found)
      split at made
      next last =>
        obtain ⟨inner, deeper, rfl⟩ := Option.map_eq_some_iff.mp made
        refine once.putNode (keysOnce_tables.mpr fun n mem => ?_)
        rcases List.mem_append.mp mem with before | new
        · exact each n ((List.dropLast_sublist all).subset before)
        · obtain rfl := List.mem_singleton.mp new
          exact ih deeper (each _ (List.mem_of_getLast? last))
      next => cases made

theorem KeysOnce.putEntry {path : List Text} {v : Setting} (inside : v.KeysOnce)
    (made : putEntry path (.value v) nodes = some nodes') (once : KeysOnce nodes) : KeysOnce nodes' := by
  rw [Toml.putEntry] at made
  split at made
  next => cases made
  next key _ =>
    refine KeysOnce.within (fun {origin inner inner'} put once => ?_) made once
    split_ifs at put
    cases put
    exact once.putNode (by rwa [Node.setting])

theorem KeysOnce.openTable {path : List Text} (made : openTable path nodes = some nodes') (once : KeysOnce nodes) :
    KeysOnce nodes' := by
  rw [Toml.openTable] at made
  split at made
  next => cases made
  next key _ =>
    refine KeysOnce.within (fun {origin inner inner'} put once => ?_) made once
    split at put
    next =>
      cases put
      exact once.putNode (keysOnce_table.mpr keysOnce_nil)
    next found =>
      cases put
      exact once.putNode (keysOnce_table.mpr (keysOnce_table.mp (once.of_lookup found)))
    next => cases put

theorem KeysOnce.openTables {path : List Text} (made : openTables path nodes = some nodes') (once : KeysOnce nodes) :
    KeysOnce nodes' := by
  rw [Toml.openTables] at made
  split at made
  next => cases made
  next key _ =>
    refine KeysOnce.within (fun {origin inner inner'} put once => ?_) made once
    split at put
    next =>
      cases put
      refine once.putNode (keysOnce_tables.mpr fun n mem => ?_)
      obtain rfl := List.mem_singleton.mp mem
      exact keysOnce_nil
    next all found =>
      cases put
      refine once.putNode (keysOnce_tables.mpr fun n mem => ?_)
      rcases List.mem_append.mp mem with before | new
      · exact keysOnce_tables.mp (once.of_lookup found) n before
      · obtain rfl := List.mem_singleton.mp new
        exact keysOnce_nil
    next => cases put

theorem keysOnce_of_bare {t rest : Text} {v : Setting} (read : bare t = some (v, rest)) : v.KeysOnce := by
  simp only [bare, Option.map_eq_some_iff, Prod.mk.injEq] at read
  obtain ⟨w, word, rfl, -⟩ := read
  split_ifs at word
  · cases word
    exact .of_bare rfl rfl
  · cases word
    exact .of_bare rfl rfl
  · split at word <;> cases word <;> exact .of_bare rfl rfl

/-- Values, items and entries are read together, so what holds of them is shown together. -/
structure ReadOnce (fuel : Nat) : Prop where
  value {depth : Nat} {t rest : Text} {v : Setting} : value fuel depth t = some (v, rest) → v.KeysOnce
  items {depth : Nat} {t rest : Text} {vs : List Setting} :
    items fuel depth t = some (vs, rest) → ∀ v ∈ vs, v.KeysOnce
  entries {depth : Nat} {nodes nodes' : Nodes} {t rest : Text} :
    inlineEntries fuel depth nodes t = some (nodes', rest) → KeysOnce nodes → KeysOnce nodes'

namespace ReadOnce

variable {fuel depth : Nat} {t rest : Text}

theorem value_succ (ih : ReadOnce fuel) {v : Setting} (read : Toml.value (fuel + 1) depth t = some (v, rest)) :
    v.KeysOnce := by
  unfold Toml.value at read
  split at read
  next =>
    obtain ⟨r, -, same⟩ := Option.map_eq_some_iff.mp read
    cases same
    exact .of_bare rfl rfl
  next =>
    obtain ⟨r, -, same⟩ := Option.map_eq_some_iff.mp read
    cases same
    exact .of_bare rfl rfl
  next =>
    obtain ⟨r, inside, same⟩ := Option.map_eq_some_iff.mp read
    cases same
    exact Setting.keysOnce_list.mpr (ih.items inside)
  next =>
    split at read
    next =>
      cases read
      exact .of_bare rfl rfl
    next =>
      obtain ⟨r, inside, same⟩ := Option.map_eq_some_iff.mp read
      cases same
      exact ih.entries inside keysOnce_nil
  next =>
    split at read
    next =>
      cases read
      exact .of_bare rfl rfl
    next => exact keysOnce_of_bare read

theorem items_succ (ih : ReadOnce fuel) {vs : List Setting}
    (read : Toml.items (fuel + 1) depth t = some (vs, rest)) : ∀ v ∈ vs, v.KeysOnce := by
  unfold Toml.items at read
  split at read
  next => cases read
  next =>
    cases read
    exact fun _ mem => (List.not_mem_nil mem).elim
  next =>
    split at read
    next => cases read
    next first =>
      have once := ih.value first
      split at read
      next =>
        obtain ⟨r, behind, same⟩ := Option.map_eq_some_iff.mp read
        cases same
        exact List.forall_mem_cons.mpr ⟨once, ih.items behind⟩
      next =>
        cases read
        exact List.forall_mem_cons.mpr ⟨once, fun _ mem => (List.not_mem_nil mem).elim⟩
      next => cases read

theorem entries_succ (ih : ReadOnce fuel) {nodes nodes' : Nodes}
    (read : inlineEntries (fuel + 1) depth nodes t = some (nodes', rest)) (once : KeysOnce nodes) :
    KeysOnce nodes' := by
  unfold inlineEntries at read
  split at read
  next =>
    split at read
    next => cases read
    next first =>
      split at read
      next added _ => exact ih.entries read (.putEntry (ih.value first) added once)
      next added _ =>
        cases read
        exact .putEntry (ih.value first) added once
      next => cases read
  next => cases read

theorem all (fuel : Nat) : ReadOnce fuel := by
  induction fuel with
  | zero => exact ⟨fun read => by simp [Toml.value] at read, fun read => by simp [Toml.items] at read,
      fun read => by simp [inlineEntries] at read⟩
  | succ fuel ih => exact ⟨ih.value_succ, ih.items_succ, ih.entries_succ⟩

end ReadOnce

theorem KeysOnce.document {fuel : Nat} {path : List Text} {t : Text} (read : document fuel path nodes t = some nodes')
    (once : KeysOnce nodes) : KeysOnce nodes' := by
  induction fuel generalizing path nodes t with
  | zero => cases read
  | succ fuel ih =>
    rw [Toml.document] at read
    split at read
    next => cases read
    next =>
      cases read
      exact once
    next =>
      split at read
      next => cases read
      next many rest _ =>
        split at read
        next opened _ =>
          refine ih read ?_
          split at opened
          next => exact .openTables opened once
          next => exact .openTable opened once
        next => cases read
    next =>
      split at read
      next =>
        split at read
        next => cases read
        next first =>
          split at read
          next added _ =>
            refine ih read (KeysOnce.within (fun put once => ?_) added once)
            exact .putEntry ((ReadOnce.all fuel).value first) put once
          next => cases read
      next => cases read

end Toml
end TypedProperties
