import PageLint.Proofs.Report.Enumeration
import PageLint.Proofs.Report.Selection

/-!
# Documents in preorder

A tree is walked with a stack whose last node is the next: it is taken off, and its children are put
on, the last first. `drained_iff` says that the stack stands for the recursion that is left, and
`InPreorder.enumerates` that the recursion goes through the places of a tree in lexicographic order,
in which a place comes before those below it, and these before those to its right. What the rules
report follows that order, and at one place the order of the catalogue: `reports_in_preorder`.
-/

namespace PageLint

/-! ### Trees -/

section Trees

variable {ν : Type}

/-- The node at a place of several trees. A place says which tree it is in, and then which child to
go on with. -/
def nodeAt? (children : ν → List ν) : (ns : List ν) → (place : List Nat) → Option ν
  | _, [] => none
  | ns, [i] => ns[i]?
  | ns, i :: j :: place => ns[i]?.bind fun n => nodeAt? children (children n) (j :: place)

/-- The nodes of several trees: each node, what is below it, and then what comes after it. -/
inductive InPreorder (children : ν → List ν) : (ns out : List ν) → Prop
  | nil : InPreorder children [] []
  | cons {n ns inner later} (below : InPreorder children (children n) inner)
      (after : InPreorder children ns later) : InPreorder children (n :: ns) (n :: (inner ++ later))

/-- What a stack of nodes gives until it is empty. The last node is taken off, and its children are
put on, the last first. -/
inductive Drained (children : ν → List ν) : (stack out : List ν) → Prop
  | empty : Drained children [] []
  | pop {stack n out} (left : Drained children (stack ++ (children n).reverse) out) :
      Drained children (stack ++ [n]) (n :: out)

variable {children : ν → List ν} {ns stack out later : List ν}

theorem InPreorder.append_inv {front back : List ν}
    (whole : InPreorder children (front ++ back) out) :
    ∃ first last, out = first ++ last ∧ InPreorder children front first ∧
      InPreorder children back last := by
  induction front generalizing out with
  | nil => exact ⟨[], out, rfl, .nil, whole⟩
  | cons n front ih =>
    cases whole with
    | cons below after =>
      obtain ⟨first, last, rfl, here, there⟩ := ih after
      exact ⟨_, last, by rw [List.cons_append, List.append_assoc], .cons below here, there⟩

/-- The children of the first node may be put in its place. -/
theorem InPreorder.cons_of_append {n : ν} (whole : InPreorder children (children n ++ ns) out) :
    InPreorder children (n :: ns) (n :: out) := by
  obtain ⟨inner, later, rfl, below, after⟩ := whole.append_inv
  exact .cons below after

theorem InPreorder.drained (preorder : InPreorder children ns out)
    (left : Drained children stack later) :
    Drained children (stack ++ ns.reverse) (out ++ later) := by
  induction preorder generalizing stack later with
  | nil => rwa [List.reverse_nil, List.append_nil]
  | cons _ _ below_ih after_ih =>
    -- The children lie on top of the later siblings, so what is below comes out first.
    have drained := Drained.pop (below_ih (after_ih left))
    simpa only [List.reverse_cons, List.append_assoc, List.cons_append] using drained

/-- A stack stands for the recursion that is left to do. -/
theorem drained_iff : Drained children stack out ↔ InPreorder children stack.reverse out := by
  constructor
  · intro drained
    induction drained with
    | empty => exact .nil
    | pop _ ih =>
      rw [List.reverse_append, List.reverse_reverse] at ih
      rw [List.reverse_concat]
      exact ih.cons_of_append
  · intro preorder
    have drained := preorder.drained .empty
    rwa [List.reverse_reverse, List.append_nil, List.nil_append] at drained

theorem InPreorder.unique {out' : List ν} (preorder : InPreorder children ns out)
    (preorder' : InPreorder children ns out') : out' = out := by
  induction preorder generalizing out' with
  | nil => cases preorder'; rfl
  | cons _ _ below_ih after_ih =>
    cases preorder' with
    | cons below after => rw [below_ih below, after_ih after]

/-! ### Places -/

theorem nodeAt?_below (n : ν) (ns : List ν) {place : List Nat} (inside : place ≠ []) :
    nodeAt? children (n :: ns) (0 :: place) = nodeAt? children (children n) place := by
  cases place with
  | nil => exact absurd rfl inside
  | cons => rfl

theorem nodeAt?_after (n : ν) (ns : List ν) (i : Nat) (place : List Nat) :
    nodeAt? children (n :: ns) ((i + 1) :: place) = nodeAt? children ns (i :: place) := by
  cases place <;> rfl

theorem place_ne_nil {place : List Nat} {n : ν} (found : nodeAt? children ns place = some n) :
    place ≠ [] := by
  rintro rfl
  cases ns <;> cases found

theorem nodeAt?_cons_iff {n m : ν} {place : List Nat} :
    nodeAt? children (n :: ns) place = some m ↔
      (place = [0] ∧ m = n) ∨
        (∃ p, 0 :: p = place ∧ nodeAt? children (children n) p = some m) ∨
          ∃ p, p.modifyHead (· + 1) = place ∧ nodeAt? children ns p = some m := by
  constructor
  · intro found
    match place with
    | [] => cases found
    | [0] => exact .inl ⟨rfl, (Option.some.inj found).symm⟩
    | 0 :: i :: p => exact .inr (.inl ⟨i :: p, rfl, found⟩)
    | (i + 1) :: p => exact .inr (.inr ⟨i :: p, rfl, (nodeAt?_after n ns i p).symm.trans found⟩)
  · rintro (⟨rfl, rfl⟩ | ⟨p, rfl, found⟩ | ⟨p, rfl, found⟩)
    · rfl
    · rw [nodeAt?_below n ns (place_ne_nil found), found]
    · cases p with
      | nil => exact absurd rfl (place_ne_nil found)
      | cons i p => exact (nodeAt?_after n ns i p).trans found

theorem modifyHead_succ_lt {p q : List Nat} (first : p < q) :
    p.modifyHead (· + 1) < q.modifyHead (· + 1) := by
  cases p with
  | nil =>
    cases q with
    | nil => exact absurd first (List.lt_irrefl [])
    | cons j q => exact List.nil_lt_cons (j + 1) q
  | cons i p =>
    cases q with
    | nil => exact absurd first (List.not_lt_nil _)
    | cons j q =>
      rcases List.cons_lt_cons_iff.mp first with less | ⟨rfl, rest⟩
      · exact List.cons_lt_cons_iff.mpr (.inl (Nat.succ_lt_succ less))
      · exact List.cons_lt_cons_iff.mpr (.inr ⟨rfl, rest⟩)

theorem zero_lt_modifyHead_succ (p : List Nat) {q : List Nat} (inside : q ≠ []) :
    0 :: p < q.modifyHead (· + 1) := by
  cases q with
  | nil => exact absurd rfl inside
  | cons j q => exact List.cons_lt_cons_iff.mpr (.inl j.succ_pos)

theorem nodeAt?_nil (place : List Nat) : nodeAt? children [] place = none := by
  match place with
  | [] => rfl
  | [i] => rfl
  | i :: j :: p => rfl

theorem InPreorder.enumerates (preorder : InPreorder children ns out) :
    Enumerates (fun p q : List Nat => p < q) (fun place n => nodeAt? children ns place = some n)
      out := by
  induction preorder with
  | nil =>
    refine Enumerates.nil.congr fun place n => ?_
    rw [nodeAt?_nil]
    exact ⟨False.elim, nofun⟩
  | @cons n ns inner later _ _ below_ih after_ih =>
    -- Below the first tree a place starts with 0; the places in later trees are one further on.
    have below := below_ih.rename (0 :: ·) fun p _ q _ _ _ first =>
      List.cons_lt_cons_iff.mpr (.inr ⟨rfl, first⟩)
    have after := after_ih.rename (List.modifyHead (· + 1)) fun p _ q _ _ _ first =>
      modifyHead_succ_lt first
    refine ((below.append after ?_).cons (k := [0]) (b := n) ?_).congr fun place m =>
      nodeAt?_cons_iff.symm
    · rintro _ m _ m' ⟨p, rfl, _⟩ ⟨q, rfl, found⟩
      exact zero_lt_modifyHead_succ p (place_ne_nil found)
    · rintro _ m (⟨p, rfl, found⟩ | ⟨q, rfl, found⟩)
      · cases p with
        | nil => exact absurd rfl (place_ne_nil found)
        | cons i p => exact List.cons_lt_cons_iff.mpr (.inr ⟨rfl, List.nil_lt_cons i p⟩)
      · exact zero_lt_modifyHead_succ [] (place_ne_nil found)

/-- `walk` takes the nodes of trees off a stack, in preorder, each node once. -/
def WalksInPreorder (children : ν → List ν) (walk : List ν → List ν) : Prop :=
  ∀ ns, (∀ out, Drained children ns.reverse out ↔ out = walk ns) ∧
    InPreorder children ns (walk ns) ∧
    Enumerates (fun p q : List Nat => p < q) (fun place n => nodeAt? children ns place = some n)
      (walk ns)

theorem walksInPreorder {walk : List ν → List ν}
    (preorder : ∀ ns, InPreorder children ns (walk ns)) : WalksInPreorder children walk := by
  intro ns
  refine ⟨fun out => ?_, preorder ns, (preorder ns).enumerates⟩
  rw [drained_iff, List.reverse_reverse]
  constructor
  · exact (preorder ns).unique
  · rintro rfl
    exact preorder ns

def ReportOrder : (key key' : List Nat × Nat) → Prop :=
  Prod.Lex (fun p q => p < q) fun i j => i < j

/-- What is reported for the items of the nodes of a walk, where each rule of a catalogue reports
the items that it finds fault with. -/
theorem enumerates_reports {ε ρ ι : Type} (preorder : InPreorder children ns out)
    (item? : ν → Option ε) (catalogue : List ρ) (active : ρ → Bool) (flags : ρ → ε → Bool)
    (report : ρ → ε → ι) :
    Enumerates ReportOrder
      (fun key issue => ∃ e r, (nodeAt? children ns key.1).bind item? = some e ∧
        catalogue[key.2]? = some r ∧ active r = true ∧ flags r e = true ∧ report r e = issue)
      ((out.filterMap item?).flatMap fun e =>
        ((catalogue.filter active).filter (flags · e)).map (report · e)) := by
  have items := preorder.enumerates.filterMap item?
  have reports (e : ε) := (((Enumerates.indices catalogue).filter active).filter (flags · e)).map
    (report · e)
  refine (items.flatMap reports).congr fun key issue => ?_
  constructor
  · rintro ⟨e, ⟨n, found, item⟩, r, ⟨⟨listed, runs⟩, fault⟩, made⟩
    exact ⟨e, r, Option.bind_eq_some_iff.mpr ⟨n, found, item⟩, listed, runs, fault, made⟩
  · rintro ⟨e, r, item, listed, runs, fault, made⟩
    obtain ⟨n, found, item⟩ := Option.bind_eq_some_iff.mp item
    exact ⟨e, ⟨n, found, item⟩, r, ⟨⟨listed, runs⟩, fault⟩, made⟩

end Trees

/-! ### Pages and stylesheets -/

theorem Markup.Node.walk_preorder (ns : List Markup.Node) :
    InPreorder Markup.Node.children ns (Markup.Node.walk ns) := by
  fun_induction Markup.Node.walk ns with
  | case1 => exact .nil
  | case2 n rest ih => exact ih.cons_of_append

theorem Stylesheet.Node.walk_preorder (ns : List Stylesheet.Node) :
    InPreorder Stylesheet.Node.children ns (Stylesheet.Node.walk ns) := by
  fun_induction Stylesheet.Node.walk ns with
  | case1 => exact .nil
  | case2 n rest ih => exact ih.cons_of_append

/-- Pages and stylesheets are walked in preorder. Their issues are one for each element or
declaration and each rule that runs and finds fault with it, by place and then by catalogue. -/
theorem reports_in_preorder [Markup.PatternEngine] :
    WalksInPreorder Markup.Node.children Markup.Node.walk ∧
    WalksInPreorder Stylesheet.Node.children Stylesheet.Node.walk ∧
    (∀ c text root,
      Enumerates ReportOrder
        (fun key issue => ∃ e r,
          (nodeAt? Markup.Node.children [root] key.1).bind Markup.Node.element? = some e ∧
          Markup.ElementRule.catalogue[key.2]? = some r ∧ c.selects r.id r.category = true ∧
          r.flags e = true ∧ r.issue text e = issue)
        (Markup.inspect (Markup.ElementRule.selected c) text root)) ∧
    (∀ c ns,
      Enumerates ReportOrder
        (fun key issue => ∃ d r,
          (nodeAt? Stylesheet.Node.children ns key.1).bind Stylesheet.Node.declaration? = some d ∧
          Stylesheet.DeclarationRule.catalogue[key.2]? = some r ∧
          c.selects r.id r.category = true ∧ r.flags d = true ∧ r.issue d = issue)
        (Stylesheet.inspect (Stylesheet.DeclarationRule.selected c) ns)) ∧
    Markup.ElementRule.selected {} = Markup.ElementRule.catalogue ∧
    Stylesheet.DeclarationRule.selected {} = Stylesheet.DeclarationRule.catalogue := by
  refine ⟨walksInPreorder Markup.Node.walk_preorder, walksInPreorder Stylesheet.Node.walk_preorder,
    fun c text root => ?_, fun c ns => ?_, elementRules_default, declarationRules_default⟩
  · exact enumerates_reports (Markup.Node.walk_preorder [root]) Markup.Node.element?
      Markup.ElementRule.catalogue (fun r => c.selects r.id r.category) Markup.ElementRule.flags
      fun r e => r.issue text e
  · exact enumerates_reports (Stylesheet.Node.walk_preorder ns) Stylesheet.Node.declaration?
      Stylesheet.DeclarationRule.catalogue (fun r => c.selects r.id r.category)
      Stylesheet.DeclarationRule.flags fun r d => r.issue d

end PageLint
