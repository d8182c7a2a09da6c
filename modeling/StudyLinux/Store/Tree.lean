import Mathlib.Data.List.Basic

/-!
# File trees

A node is a file or a directory of named nodes. `walk` visits a node and all that
is below it and gives, for each, the names that lead there; these are the paths of
the node (`mem_walk_iff`).
-/

namespace StudyLinux

/-- A file, or a directory with its entries. -/
inductive Node (κ : Type)
  | file
  | dir (children : List (κ × Node κ))

namespace Node

variable {κ : Type}

/-- The names lead from the node to itself or to something below it. -/
inductive HasPath : Node κ → List κ → Prop
  | here {node : Node κ} : HasPath node []
  | child {children : List (κ × Node κ)} {name : κ} {node : Node κ} {names : List κ}
      (listed : (name, node) ∈ children) (path : HasPath node names) :
      HasPath (.dir children) (name :: names)

mutual

/-- The paths of a node, a directory in front of its entries. -/
def walk : Node κ → List (List κ)
  | .file => [[]]
  | .dir children => [] :: walkAll children

/-- The paths of the entries of a directory. -/
def walkAll : List (κ × Node κ) → List (List κ)
  | [] => []
  | (name, node) :: rest => node.walk.map (name :: ·) ++ walkAll rest

end

mutual

theorem mem_walk_iff : (node : Node κ) → (names : List κ) → (names ∈ node.walk ↔ node.HasPath names)
  | .file, names => by
      rw [walk, List.mem_singleton]
      constructor
      · intro same
        exact same ▸ .here
      · intro path
        cases path
        rfl
  | .dir children, names => by
      rw [walk, List.mem_cons, mem_walkAll_iff children names]
      constructor
      · intro visited
        rcases visited with same | ⟨name, node, rest, listed, same, path⟩
        · exact same ▸ .here
        · exact same ▸ .child listed path
      · intro path
        cases path with
        | here => exact Or.inl rfl
        | child listed path => exact Or.inr ⟨_, _, _, listed, rfl, path⟩

theorem mem_walkAll_iff : (children : List (κ × Node κ)) → (names : List κ) →
    (names ∈ walkAll children ↔
      ∃ name node rest, (name, node) ∈ children ∧ names = name :: rest ∧ node.HasPath rest)
  | [], names => by simp [walkAll]
  | (name, node) :: others, names => by
      rw [walkAll, List.mem_append, List.mem_map, mem_walkAll_iff others names]
      constructor
      · intro visited
        rcases visited with ⟨rest, path, same⟩ | ⟨name', node', rest, listed, same, path⟩
        · exact ⟨name, node, rest, List.mem_cons_self, same.symm, (mem_walk_iff node rest).mp path⟩
        · exact ⟨name', node', rest, List.mem_cons_of_mem _ listed, same, path⟩
      · intro ⟨name', node', rest, listed, same, path⟩
        rcases List.mem_cons.mp listed with first | later
        · cases first
          exact Or.inl ⟨rest, (mem_walk_iff node rest).mpr path, same.symm⟩
        · exact Or.inr ⟨name', node', rest, later, same, path⟩

end

end Node

end StudyLinux
