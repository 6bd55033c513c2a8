import RecordMapping.Proofs.Operands
import Mathlib.Data.List.Forall2

/-!
# What a walk visits

The reading walk and the rewriting walk go through the same nodes: every node of the tree once,
each before what is below it, and what is below it from left to right. So the kinds recorded by
both are the same, a marker is found exactly if there is one, and a walk that overwrites constants
changes nothing else.

## Implementation notes

The place of a node is the list of the positions of the children on the way to it, and pre-order
is the order of places as lists. A function below a map or a marker is a node of its own, so the
nodes are not the operands. A constant has no children, whatever it holds.
-/

namespace RecordMapping

/-- A node of the tree that an expression is: an expression, or the function that a map or the
selector of a marker has. -/
inductive Node where
  | expr (e : Expr)
  | func (f : Func)

namespace Node

/-- The kind that a walk sees. -/
def kind : Node → NodeKind
  | .expr (.arg _) => .arg
  | .expr (.compare _ _ _) => .compare
  | .expr (.call _ _) => .call
  | .expr (.cond _ _ _) => .cond
  | .expr (.field _ _) => .field
  | .expr (.includeEntity _ _ _ _) | .expr (.includeVia _ _ _ _ _) => .marker
  | .expr (.isNull _ _) => .isNull
  | .expr (.list _) => .list
  | .expr (.map _ _) => .map
  | .expr (.record _ _) => .record
  | .expr (.const _) => .const
  | .func _ => .func

/-- The nodes right below, from left to right. -/
def children : Node → List Node
  | .expr (.arg _) | .expr (.const _) => []
  | .expr (.compare _ left right) => [.expr left, .expr right]
  | .expr (.call callee args) => .expr callee :: args.map .expr
  | .expr (.cond test yes no) => [.expr test, .expr yes, .expr no]
  | .expr (.field base _) => [.expr base]
  | .expr (.includeEntity _ entity mapping _) => [.expr entity, .expr mapping]
  | .expr (.includeVia _ parent selector mapping _) => [.expr parent, .func selector, .expr mapping]
  | .expr (.isNull _ operand) => [.expr operand]
  | .expr (.list items) => items.map .expr
  | .expr (.map base lambda) => [.expr base, .func lambda]
  | .expr (.record _ fields) => fields.map .expr
  | .func f => [.expr f.body]

/-- The node without what is below it. -/
def label : Node → Node
  | .expr e => .expr e.head
  | .func f => .func ⟨f.params, .null⟩

/-- The node that stands at a place of the tree. The place is the list of the positions of the
children to take. -/
inductive At : Node → List Nat → Node → Prop
  | root {n : Node} : At n [] n
  | child {n c m : Node} {i : Nat} {place : List Nat} (hc : n.children[i]? = some c)
      (h : At c place m) : At n (i :: place) m

theorem sizeOf_child_lt {n c : Node} (h : c ∈ n.children) : sizeOf c < sizeOf n := by
  match n with
  | .func f =>
    obtain ⟨params, body⟩ := f
    simp [children] at h
    subst h
    simp only [func.sizeOf_spec, expr.sizeOf_spec, Func.mk.sizeOf_spec]
    omega
  | .expr e =>
    cases e with
    | call callee args =>
        simp [children] at h
        rcases h with rfl | ⟨a, ha, rfl⟩
        · simp; omega
        · have := List.sizeOf_lt_of_mem ha
          simp; omega
    | list items | record model items =>
        simp [children] at h
        obtain ⟨a, ha, rfl⟩ := h
        have := List.sizeOf_lt_of_mem ha
        simp; omega
    | arg | const => simp [children] at h
    | _ =>
        simp [children] at h
        rcases h with rfl | rfl | rfl <;> simp <;> omega

/-- The nodes of a tree with their places, each by its label, in the order of a walk: a node before
all that is below it, and what is below it from left to right. That is the order of the places. -/
structure Lists (n : Node) (nodes : List (List Nat × Node)) : Prop where
  sorted : nodes.Pairwise fun a b => a.1 < b.1
  complete : ∀ place l, (place, l) ∈ nodes ↔ ∃ m, n.At place m ∧ l = m.label

/-- The nodes below children, the first of which is at the given position. -/
def joined : Nat → List (List (List Nat × Node)) → List (List Nat × Node)
  | _, [] => []
  | i, nodes :: rest => nodes.map (fun n => (i :: n.1, n.2)) ++ joined (i + 1) rest

theorem le_of_mem_joined {i : Nat} {lists : List (List (List Nat × Node))} {n : List Nat × Node}
    (h : n ∈ joined i lists) : ∃ j place, i ≤ j ∧ n.1 = j :: place := by
  induction lists generalizing i with
  | nil => cases h
  | cons nodes rest ih =>
      rcases List.mem_append.mp h with h | h
      · obtain ⟨m, -, rfl⟩ := List.mem_map.mp h
        exact ⟨i, m.1, Nat.le_refl i, rfl⟩
      · obtain ⟨j, place, hj, hn⟩ := ih h
        exact ⟨j, place, Nat.le_of_succ_le hj, hn⟩

theorem sorted_joined {children : List Node} {lists : List (List (List Nat × Node))} (i : Nat)
    (h : List.Forall₂ Lists children lists) :
    (joined i lists).Pairwise fun a b => a.1 < b.1 := by
  induction h generalizing i with
  | nil => exact .nil
  | cons first _ ih =>
      refine List.pairwise_append.mpr ⟨?_, ih (i + 1), ?_⟩
      · exact List.pairwise_map.mpr (first.sorted.imp fun h => List.Lex.cons h)
      · intro a ha b hb
        obtain ⟨m, -, rfl⟩ := List.mem_map.mp ha
        obtain ⟨j, place, hj, hb⟩ := le_of_mem_joined hb
        rw [hb]
        exact List.Lex.rel hj

theorem mem_joined_iff {children : List Node} {lists : List (List (List Nat × Node))} {i : Nat}
    (h : List.Forall₂ Lists children lists) {place : List Nat} {l : Node} :
    (place, l) ∈ joined i lists ↔
      ∃ j c rest m, children[j]? = some c ∧ place = (i + j) :: rest ∧ c.At rest m ∧
        l = m.label := by
  induction h generalizing i with
  | nil => simp [joined]
  | @cons c nodes children lists first _ ih =>
      rw [joined, List.mem_append, ih]
      constructor
      · rintro (h | ⟨j, c', rest, m, hc, rfl, hm, rfl⟩)
        · obtain ⟨⟨rest, l'⟩, hn, hp⟩ := List.mem_map.mp h
          cases hp
          obtain ⟨m, hm, rfl⟩ := (first.complete rest l').mp hn
          exact ⟨0, c, rest, m, rfl, rfl, hm, rfl⟩
        · exact ⟨j + 1, c', rest, m, hc, by rw [Nat.add_right_comm, Nat.add_assoc], hm, rfl⟩
      · rintro ⟨_ | j, c', rest, m, hc, rfl, hm, rfl⟩
        · cases hc
          have listed := (first.complete rest m.label).mpr ⟨m, hm, rfl⟩
          exact .inl (List.mem_map.mpr ⟨_, listed, by simp⟩)
        · exact .inr ⟨j, c', rest, m, hc, by rw [Nat.add_right_comm, Nat.add_assoc], hm, rfl⟩

/-- A node comes first, and the lists of its children follow. -/
theorem lists_of_children {n : Node} {lists : List (List (List Nat × Node))}
    (h : List.Forall₂ Lists n.children lists) : n.Lists (([], n.label) :: joined 0 lists) where
  sorted := by
    refine List.pairwise_cons.mpr ⟨fun b hb => ?_, sorted_joined 0 h⟩
    obtain ⟨j, place, -, hb⟩ := le_of_mem_joined hb
    rw [hb]
    exact List.Lex.nil
  complete place l := by
    rw [List.mem_cons, mem_joined_iff h]
    constructor
    · rintro (h | ⟨j, c, rest, m, hc, rfl, hm, rfl⟩)
      · cases h
        exact ⟨n, .root, rfl⟩
      · exact ⟨m, by rw [Nat.zero_add]; exact .child hc hm, rfl⟩
    · rintro ⟨m, _ | ⟨hc, hm⟩, rfl⟩
      · exact .inl rfl
      · exact .inr ⟨_, _, _, m, hc, by rw [Nat.zero_add], hm, rfl⟩

/-- Walk a node: a function is entered before its body. -/
def walk {σ : Type} (w : Walker σ) : Node → σ → Node × σ
  | .expr e, s => (.expr (e.walk w s).1, (e.walk w s).2)
  | .func f, s =>
      let body := f.body.walk w (w.enter .func s)
      (.func ⟨f.params, body.1⟩, body.2)

end Node

section Walking

variable {σ : Type} (w : Walker σ)

theorem Expr.threaded_walkAll (es : List Expr) (s : σ) :
    Threaded (fun c s c' s' => c.walk w s = (c', s')) (es.map Node.expr) s
      ((walkAll w es s).1.map Node.expr) (walkAll w es s).2 := by
  induction es generalizing s with
  | nil => exact .nil
  | cons e es ih => exact .cons rfl (ih _)

theorem Expr.length_walkAll (es : List Expr) (s : σ) : (walkAll w es s).1.length = es.length := by
  induction es generalizing s with
  | nil => rfl
  | cons e es ih => simp [walkAll, ih]

namespace Node

/-- Walking a node that is no constant is entering it and walking its children, one after the
other. Its label stays. -/
theorem walk_children {n : Node} (h : ∀ v, n ≠ .expr (.const v)) (s : σ) :
    (n.walk w s).1.label = n.label ∧
      Threaded (fun c s c' s' => c.walk w s = (c', s')) n.children (w.enter n.kind s)
        (n.walk w s).1.children (n.walk w s).2 := by
  match n with
  | .func f => exact ⟨rfl, .cons rfl .nil⟩
  | .expr e =>
    cases e with
    | const v => exact absurd rfl (h v)
    | arg p => exact ⟨rfl, .nil⟩
    | compare | includeEntity => exact ⟨rfl, .cons rfl (.cons rfl .nil)⟩
    | cond => exact ⟨rfl, .cons rfl (.cons rfl (.cons rfl .nil))⟩
    | field | isNull => exact ⟨rfl, .cons rfl .nil⟩
    | call callee args =>
        refine ⟨?_, .cons rfl (Expr.threaded_walkAll w args _)⟩
        simp [walk, Expr.walk, label, Expr.head, List.map_const', Expr.length_walkAll]
    | list items | record model items =>
        refine ⟨?_, Expr.threaded_walkAll w items _⟩
        simp [walk, Expr.walk, label, Expr.head, List.map_const', Expr.length_walkAll]
    | map base lambda =>
        obtain ⟨params, body⟩ := lambda
        exact ⟨rfl, .cons rfl (.cons rfl .nil)⟩
    | includeVia kind parent selector mapping ty =>
        obtain ⟨params, body⟩ := selector
        exact ⟨rfl, .cons rfl (.cons rfl (.cons rfl .nil))⟩

end Node

/-- Visit listed nodes one after the other: only the label of a constant is changed. -/
def Walker.visit : List (List Nat × Node) → σ → List (List Nat × Node) × σ
  | [], s => ([], s)
  | (place, .expr (.const v)) :: rest, s =>
      let v' := w.rewrite v (w.enter .const s)
      let after := visit rest v'.2
      ((place, .expr (.const v'.1)) :: after.1, after.2)
  | n :: rest, s =>
      let after := visit rest (w.enter n.2.kind s)
      (n :: after.1, after.2)

variable {w}

theorem Walker.visit_cons_of_ne {n : List Nat × Node} (h : ∀ v, n.2 ≠ .expr (.const v))
    (rest : List (List Nat × Node)) (s : σ) : w.visit (n :: rest) s =
      (n :: (w.visit rest (w.enter n.2.kind s)).1, (w.visit rest (w.enter n.2.kind s)).2) := by
  obtain ⟨place, e | f⟩ := n
  · cases e with
    | const v => exact absurd rfl (h v)
    | _ => rfl
  · rfl

theorem Walker.visit_append (nodes rest : List (List Nat × Node)) (s : σ) :
    w.visit (nodes ++ rest) s =
      ((w.visit nodes s).1 ++ (w.visit rest (w.visit nodes s).2).1,
        (w.visit rest (w.visit nodes s).2).2) := by
  induction nodes generalizing s with
  | nil => rfl
  | cons n nodes ih =>
      by_cases h : ∃ v, n.2 = .expr (.const v)
      · obtain ⟨v, h⟩ := h
        obtain ⟨place, _⟩ := n
        cases h
        simp [visit, ih]
      · have other : ∀ v, n.2 ≠ .expr (.const v) := fun v hv => h ⟨v, hv⟩
        simp [visit_cons_of_ne other, ih]

/-- The places do not matter to a visit. -/
theorem Walker.visit_map (move : List Nat → List Nat) (nodes : List (List Nat × Node)) (s : σ) :
    w.visit (nodes.map fun n => (move n.1, n.2)) s =
      ((w.visit nodes s).1.map fun n => (move n.1, n.2), (w.visit nodes s).2) := by
  induction nodes generalizing s with
  | nil => rfl
  | cons n nodes ih =>
      by_cases h : ∃ v, n.2 = .expr (.const v)
      · obtain ⟨v, h⟩ := h
        obtain ⟨place, _⟩ := n
        cases h
        simp [visit, ih]
      · have other : ∀ v, n.2 ≠ .expr (.const v) := fun v hv => h ⟨v, hv⟩
        rw [List.map_cons, visit_cons_of_ne (n := (move n.1, n.2)) other, visit_cons_of_ne other,
          ih, List.map_cons]

end Walking

namespace Node

/-- The list has the nodes of the tree, and every walk visits them one after the other. -/
def Visits (n : Node) (nodes : List (List Nat × Node)) : Prop :=
  n.Lists nodes ∧ ∀ {σ : Type} (w : Walker σ) (s : σ),
    (n.walk w s).1.Lists (w.visit nodes s).1 ∧ (n.walk w s).2 = (w.visit nodes s).2

/-- Walks of children visit what is below them. -/
theorem visit_joined {σ : Type} {w : Walker σ} {children children' : List Node} {s s' : σ}
    {lists : List (List (List Nat × Node))} (h : List.Forall₂ Visits children lists)
    (walks : Threaded (fun c s c' s' => c.walk w s = (c', s')) children s children' s') :
    ∃ lists', List.Forall₂ Lists children' lists' ∧
      ∀ i, w.visit (joined i lists) s = (joined i lists', s') := by
  induction walks generalizing lists with
  | nil =>
      cases h
      exact ⟨[], .nil, fun _ => rfl⟩
  | cons head _ ih =>
      obtain _ | ⟨first, rest⟩ := h
      obtain ⟨lists', hlists, visit⟩ := ih rest
      obtain ⟨listed, state⟩ := first.2 w _
      rw [head] at listed state
      refine ⟨_ :: lists', .cons listed hlists, fun i => ?_⟩
      rw [joined, Walker.visit_append, Walker.visit_map, ← state, visit]
      rfl

@[simp] theorem kind_label (n : Node) : n.label.kind = n.kind := by
  obtain e | f := n
  · cases e <;> rfl
  · rfl

theorem label_eq_const_iff {n : Node} {v : Value} :
    n.label = .expr (.const v) ↔ n = .expr (.const v) := by
  obtain e | f := n
  · cases e <;> simp [label, Expr.head]
  · simp [label]

/-- What each node of a list can be paired with, the list can be paired with. -/
theorem exists_forall₂ {R : Node → List (List Nat × Node) → Prop} {nodes : List Node}
    (each : ∀ n ∈ nodes, ∃ listed, R n listed) : ∃ lists, List.Forall₂ R nodes lists := by
  induction nodes with
  | nil => exact ⟨[], .nil⟩
  | cons n nodes ih =>
      obtain ⟨listed, hn⟩ := each n (by simp)
      obtain ⟨lists, hlists⟩ := ih fun a ha => each a (by simp [ha])
      exact ⟨listed :: lists, .cons hn hlists⟩

/-- The nodes of every tree can be listed, and walks visit them in this order. -/
theorem exists_visits (n : Node) : ∃ nodes, n.Visits nodes := by
  by_cases const : ∃ v, n = .expr (.const v)
  · obtain ⟨v, rfl⟩ := const
    have alone (v : Value) : (Node.expr (.const v)).Lists [([], .expr (.const v))] :=
      lists_of_children (n := .expr (.const v)) .nil
    exact ⟨_, alone v, fun w s => ⟨alone _, rfl⟩⟩
  · have inner : ∀ v, n ≠ .expr (.const v) := fun v hv => const ⟨v, hv⟩
    obtain ⟨lists, hlists⟩ := exists_forall₂ fun c (hc : c ∈ n.children) => exists_visits c
    have listed := lists_of_children (hlists.imp fun _ _ h => h.1)
    refine ⟨([], n.label) :: joined 0 lists, listed, ?_⟩
    intro σ w s
    obtain ⟨label, walks⟩ := walk_children w inner s
    obtain ⟨lists', hlists', visit⟩ := visit_joined hlists walks
    rw [Walker.visit_cons_of_ne fun v hv => inner v (label_eq_const_iff.mp hv), kind_label, visit]
    exact ⟨label ▸ lists_of_children hlists', rfl⟩
termination_by sizeOf n
decreasing_by exact sizeOf_child_lt hc

end Node

namespace Walker

/-- The walker that records the kinds of the nodes and changes nothing. -/
def recorder : Walker (List NodeKind) where
  enter kind seen := seen ++ [kind]
  rewrite v seen := (v, seen)

@[simp] theorem recorder_enter (kind : NodeKind) (seen : List NodeKind) :
    recorder.enter kind seen = seen ++ [kind] := rfl

@[simp] theorem recorder_rewrite (v : Value) (seen : List NodeKind) :
    recorder.rewrite v seen = (v, seen) := rfl

/-- The walker that puts new values in the place of the constants, and counts them. -/
def overwriter (new : Nat → Value) : Walker Nat where
  enter _ i := i
  rewrite _ i := (new i, i + 1)

end Walker

/-- The rewriting walk records what the reading walk does. -/
theorem Expr.walk_recorder (e : Expr) (seen : List NodeKind) :
    e.walk .recorder seen = (e, seen ++ e.kinds) := by
  have all {es : List Expr}
      (each : ∀ e ∈ es, ∀ seen, e.walk .recorder seen = (e, seen ++ e.kinds))
      (seen : List NodeKind) : walkAll .recorder es seen = (es, seen ++ kindsAll es) := by
    induction es generalizing seen with
    | nil => simp [walkAll, kindsAll]
    | cons e es ih => simp [walkAll, kindsAll, each e, ih fun a ha => each a (by simp [ha])]
  induction e generalizing seen with
  | arg | const => rfl
  | compare op left right ihl ihr => simp [walk, kinds, ihl, ihr]
  | call callee args ihf iha => simp [walk, kinds, ihf, all iha]
  | cond test yes no iht ihy ihn => simp [walk, kinds, iht, ihy, ihn]
  | field base id ih => simp [walk, kinds, ih]
  | includeEntity kind entity mapping ty ihe ihm => simp [walk, kinds, ihe, ihm]
  | includeVia kind parent params body mapping ty ihp ihb ihm =>
      simp [walk, kinds, ihp, ihb, ihm]
  | isNull negate operand ih => simp [walk, kinds, ih]
  | list items ih | record model items ih => simp [walk, kinds, all ih]
  | map base params body ihl ihb => simp [walk, kinds, ihl, ihb]

theorem Walker.visit_recorder (nodes : List (List Nat × Node)) (seen : List NodeKind) :
    recorder.visit nodes seen = (nodes, seen ++ nodes.map fun n => n.2.kind) := by
  induction nodes generalizing seen with
  | nil => simp [visit]
  | cons n nodes ih =>
      by_cases h : ∃ v, n.2 = .expr (.const v)
      · obtain ⟨v, h⟩ := h
        obtain ⟨place, _⟩ := n
        cases h
        simp [visit, ih, Node.kind]
      · have other : ∀ v, n.2 ≠ .expr (.const v) := fun v hv => h ⟨v, hv⟩
        simp [visit_cons_of_ne other, ih]

/-- New values for the constants among listed nodes, in order, the first of them numbered `i`. -/
def Node.renew (new : Nat → Value) : Nat → List (List Nat × Node) → List (List Nat × Node)
  | _, [] => []
  | i, (place, .expr (.const _)) :: rest =>
      (place, .expr (.const (new i))) :: renew new (i + 1) rest
  | i, n :: rest => n :: renew new i rest

theorem Walker.visit_overwriter (new : Nat → Value) (nodes : List (List Nat × Node)) (i : Nat) :
    ((overwriter new).visit nodes i).1 = Node.renew new i nodes := by
  fun_induction Node.renew new i nodes with
  | case1 => rfl
  | case2 i place v rest ih => simp [visit, ← ih, overwriter]
  | case3 i n rest other ih =>
      have other : ∀ v, n.2 ≠ .expr (.const v) := fun v hv => other n.1 v (by simp [← hv])
      simp [visit_cons_of_ne other, ← ih, overwriter]

/-- The search for a marker finds one exactly if the walk does. -/
theorem Expr.hasMarker_iff (e : Expr) : e.hasMarker = true ↔ .marker ∈ e.kinds := by
  have any {es : List Expr} (each : ∀ e ∈ es, (e.hasMarker = true ↔ .marker ∈ e.kinds)) :
      anyHasMarker es = true ↔ .marker ∈ kindsAll es := by
    induction es with
    | nil => simp [anyHasMarker, kindsAll]
    | cons e es ih => simp [anyHasMarker, kindsAll, each e, ih fun a ha => each a (by simp [ha])]
  induction e with
  | arg | const => simp [hasMarker, kinds]
  | compare op left right ihl ihr => simp [hasMarker, kinds, ihl, ihr]
  | call callee args ihf iha => simp [hasMarker, kinds, ihf, any iha]
  | cond test yes no iht ihy ihn => simp [hasMarker, kinds, iht, ihy, ihn, or_assoc]
  | field base id ih => simp [hasMarker, kinds, ih]
  | includeEntity | includeVia => simp [hasMarker, kinds]
  | isNull negate operand ih => simp [hasMarker, kinds, ih]
  | list items ih | record model items ih => simp [hasMarker, kinds, any ih]
  | map base params body ihl ihb => simp [hasMarker, kinds, ihl, ihb]

/-- The walks of an expression go through the same nodes: the list of them has every node of the
tree once, in pre-order, both walks record the kinds in it, there is a marker exactly if a marker is
recorded, and overwriting the constants gives the tree in which the constants of the list, in order,
have the new values. -/
theorem Expr.walks_agree (e : Expr) :
    ∃ nodes, (Node.expr e).Lists nodes ∧ e.kinds = nodes.map (fun n => n.2.kind) ∧
      e.walk .recorder [] = (e, e.kinds) ∧ (e.hasMarker = true ↔ .marker ∈ e.kinds) ∧
      ∀ new : Nat → Value, (Node.expr (e.walk (.overwriter new) 0).1).Lists
        (Node.renew new 0 nodes) := by
  obtain ⟨nodes, listed, visits⟩ := (Node.expr e).exists_visits
  refine ⟨nodes, listed, ?_, e.walk_recorder [], e.hasMarker_iff, fun new => ?_⟩
  · have seen := (visits .recorder []).2
    simpa [Node.walk, e.walk_recorder, Walker.visit_recorder] using seen
  · have overwritten := (visits (.overwriter new) 0).1
    rwa [Walker.visit_overwriter] at overwritten

end RecordMapping
