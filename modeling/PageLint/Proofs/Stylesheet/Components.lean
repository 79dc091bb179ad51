import PageLint.Proofs.Stylesheet.Important

/-!
# The components of a value

`ofTrees` reads a value tree by tree. `depthAll` says how deep functions and blocks stand inside one
another in what it gives; an `!important` at the end has no part in that.
-/

namespace PageLint.Stylesheet

open Text Stylesheet.Tree

namespace Component

/-- The components of a token, where the text `unread` stands before it. -/
def ofLeaf (unread : List Char) (t : Token) : List Component :=
  match t.kind with
  | .blank => [blank]
  | .comment => []
  | _ => [token (String.ofList (unread ++ t.text))]

def ofBlock (kind : TokenKind) (contents : List Component) : Component :=
  match kind with
  | .function name => function (String.ofList name) contents
  | kind => block (kind.opened?.getD .paren) contents

variable {levels : Nat} {unread : List Char} {t opener : Token} {inside rest : List Tree}
  {closer : Option Token}

theorem ofTrees_nil : ofTrees levels unread [] = [] := by
  rw [ofTrees]

theorem ofTrees_leaf :
    ofTrees levels unread (leaf t :: rest) = ofLeaf unread t ++ ofTrees levels [] rest := by
  rw [ofTrees, ofLeaf]
  cases t.kind <;> rfl

theorem ofTrees_block_zero :
    ofTrees 0 unread (Tree.block opener inside closer :: rest) =
      ofBlock opener.kind [] :: ofTrees 0 (Tree.block opener inside closer).innerText rest := by
  rw [ofTrees]
  rfl

theorem ofTrees_block_succ :
    ofTrees (levels + 1) unread (Tree.block opener inside closer :: rest) =
      ofBlock opener.kind (ofTrees levels [] inside) :: ofTrees (levels + 1) [] rest := by
  rw [ofTrees]
  rfl

/-- Induction over the trees of a value, as `ofTrees` enters them. -/
theorem ofTrees_induction {motive : Nat → List Tree → Prop} (levels : Nat) (ts : List Tree)
    (nil : ∀ levels, motive levels [])
    (leaf : ∀ levels t ts, motive levels ts → motive levels (leaf t :: ts))
    (skipped : ∀ opener inside closer ts, motive 0 ts →
      motive 0 (Tree.block opener inside closer :: ts))
    (entered : ∀ levels opener inside closer ts, motive levels inside → motive (levels + 1) ts →
      motive (levels + 1) (Tree.block opener inside closer :: ts)) :
    motive levels ts := by
  induction levels generalizing ts with
  | zero =>
    induction ts with
    | nil => exact nil 0
    | cons t ts ih =>
      cases t with
      | leaf t => exact leaf 0 t ts ih
      | block opener inside closer => exact skipped opener inside closer ts ih
  | succ levels ih =>
    induction ts with
    | nil => exact nil (levels + 1)
    | cons t ts ih' =>
      cases t with
      | leaf t => exact leaf (levels + 1) t ts ih'
      | block opener inside closer => exact entered levels opener inside closer ts (ih inside) ih'

/-! ### Depth -/

mutual
def depth : Component → Nat
  | token _ => 0
  | blank => 0
  | function _ arguments => depthAll arguments + 1
  | block _ contents => depthAll contents + 1

def depthAll : List Component → Nat
  | [] => 0
  | c :: cs => max (depth c) (depthAll cs)
end

variable {c : Component} {cs : List Component} {n : Nat}

theorem depthAll_le_iff : depthAll cs ≤ n ↔ ∀ c ∈ cs, c.depth ≤ n := by
  induction cs with
  | nil => simp [depthAll]
  | cons c cs ih => rw [depthAll, Nat.max_le, ih, List.forall_mem_cons]

theorem depth_ofBlock (kind : TokenKind) (contents : List Component) :
    (ofBlock kind contents).depth = depthAll contents + 1 := by
  cases kind <;> rfl

theorem depth_of_blank (is_blank : c.isBlank = true) : c.depth = 0 := by
  cases c with
  | blank => rfl
  | _ => cases is_blank

theorem depth_of_token {literal : String} (is_token : c.isToken literal = true) : c.depth = 0 := by
  cases c with
  | token => rfl
  | _ => cases is_token

/-- What is split off with `!important` holds no blocks. -/
theorem mem_splitImportant (member : c ∈ cs) : c ∈ (splitImportant cs).1 ∨ c.depth = 0 := by
  have split := important.split_splits cs
  rw [← splitImportant_eq] at split
  obtain ⟨lead, between, suffix, trail, whole, leading, inner, blanks, written⟩ := split.parts
  rw [whole] at member
  simp only [List.mem_append] at member
  rcases member with first | kept | middle | word | last
  · exact .inr (depth_of_blank (leading c first))
  · exact .inl kept
  · exact .inr (depth_of_blank (inner c middle))
  · split at written
    · obtain ⟨starts, spaces, ends⟩ := written
      rcases List.mem_cons.mp word with rfl | word
      · exact .inr (depth_of_token starts)
      rcases List.mem_append.mp word with space | word
      · exact .inr (depth_of_blank (spaces c space))
      · obtain rfl := List.mem_singleton.mp word
        exact .inr (depth_of_token ends)
    · rw [written] at word
      cases word
  · exact .inr (depth_of_blank (blanks c last))

theorem mem_of_mem_splitImportant (member : c ∈ (splitImportant cs).1) : c ∈ cs := by
  have split := important.split_splits cs
  rw [← splitImportant_eq] at split
  obtain ⟨lead, between, suffix, trail, whole, _⟩ := split.parts
  rw [whole]
  exact List.mem_append_right _ (List.mem_append_left _ member)

theorem depthAll_splitImportant (cs : List Component) :
    depthAll (splitImportant cs).1 = depthAll cs := by
  apply Nat.le_antisymm
  · rw [depthAll_le_iff]
    intro c member
    exact depthAll_le_iff.mp (Nat.le_refl _) c (mem_of_mem_splitImportant member)
  · rw [depthAll_le_iff]
    intro c member
    rcases mem_splitImportant member with kept | flat
    · exact depthAll_le_iff.mp (Nat.le_refl _) c kept
    · rw [flat]
      exact Nat.zero_le _

theorem depthAll_append_le {cs' : List Component} :
    depthAll (cs ++ cs') ≤ n ↔ depthAll cs ≤ n ∧ depthAll cs' ≤ n := by
  rw [depthAll_le_iff, depthAll_le_iff, depthAll_le_iff, List.forall_mem_append]

theorem depthAll_leaf {levels : Nat} {unread : List Char} (t : Token) (ts : List Tree) :
    depthAll (ofTrees levels unread (leaf t :: ts)) = depthAll (ofTrees levels [] ts) := by
  rw [ofTrees_leaf, ofLeaf]
  cases t.kind <;> exact Nat.zero_max _

end Component

end PageLint.Stylesheet
