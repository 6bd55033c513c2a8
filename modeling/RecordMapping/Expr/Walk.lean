import RecordMapping.Expr.Basic

/-!
# Walking expressions

A walk visits the nodes of an expression from the root, left to right. The parameters of a lambda
are not nodes, and a constant is one node whatever it holds. There is a walk that only reads and a
walk that may put another value in the place of each constant.

## Implementation notes

`kinds` lists what the reading walk visits. `walk` threads a state through the same visits and
rebuilds the expression.
-/

namespace RecordMapping

/-- The kinds of nodes that a walk visits. -/
inductive NodeKind where
  | arg
  | compare
  | call
  | cond
  | field
  | marker
  | isNull
  | list
  | map
  | record
  /-- The lambda of a map or the selector of a marker. -/
  | func
  | const
  deriving DecidableEq

mutual

/-- The kinds of the nodes of an expression in the order of a walk. -/
def Expr.kinds : Expr → List NodeKind
  | .arg _ => [.arg]
  | .compare _ left right => .compare :: (left.kinds ++ right.kinds)
  | .call callee args => .call :: (callee.kinds ++ Expr.kindsAll args)
  | .cond test yes no => .cond :: (test.kinds ++ yes.kinds ++ no.kinds)
  | .field base _ => .field :: base.kinds
  | .includeEntity _ entity mapping _ => .marker :: (entity.kinds ++ mapping.kinds)
  | .includeVia _ parent ⟨_, body⟩ mapping _ =>
      .marker :: (parent.kinds ++ .func :: body.kinds ++ mapping.kinds)
  | .isNull _ operand => .isNull :: operand.kinds
  | .list items => .list :: Expr.kindsAll items
  | .map base ⟨_, body⟩ => .map :: (base.kinds ++ .func :: body.kinds)
  | .record _ fields => .record :: Expr.kindsAll fields
  | .const _ => [.const]

/-- The kinds of the nodes of expressions, one after the other. -/
def Expr.kindsAll : List Expr → List NodeKind
  | [] => []
  | e :: es => e.kinds ++ Expr.kindsAll es

end

mutual

/-- Whether a marker stands anywhere in the expression, constants aside. The search stops at the
first one. -/
def Expr.hasMarker : Expr → Bool
  | .arg _ => false
  | .compare _ left right => left.hasMarker || right.hasMarker
  | .call callee args => callee.hasMarker || Expr.anyHasMarker args
  | .cond test yes no => test.hasMarker || yes.hasMarker || no.hasMarker
  | .field base _ => base.hasMarker
  | .includeEntity _ _ _ _ => true
  | .includeVia _ _ _ _ _ => true
  | .isNull _ operand => operand.hasMarker
  | .list items => Expr.anyHasMarker items
  | .map base ⟨_, body⟩ => base.hasMarker || body.hasMarker
  | .record _ fields => Expr.anyHasMarker fields
  | .const _ => false

/-- Whether a marker stands in any of the expressions. -/
def Expr.anyHasMarker : List Expr → Bool
  | [] => false
  | e :: es => e.hasMarker || Expr.anyHasMarker es

end

/-- Whether a marker stands anywhere in the body. -/
def Func.hasMarker (f : Func) : Bool := f.body.hasMarker

/-- What a rewriting walk does at a node and at a constant. -/
structure Walker (σ : Type) where
  enter : NodeKind → σ → σ
  /-- The value to put in the place of a constant, after the node has been entered. -/
  rewrite : Value → σ → Value × σ

mutual

/-- The expression with its constants rewritten, and the state after the walk. -/
def Expr.walk {σ : Type} (w : Walker σ) : Expr → σ → Expr × σ
  | .arg p, s => (.arg p, w.enter .arg s)
  | .compare op left right, s =>
      let l := left.walk w (w.enter .compare s)
      let r := right.walk w l.2
      (.compare op l.1 r.1, r.2)
  | .call callee args, s =>
      let f := callee.walk w (w.enter .call s)
      let as := Expr.walkAll w args f.2
      (.call f.1 as.1, as.2)
  | .cond test yes no, s =>
      let t := test.walk w (w.enter .cond s)
      let y := yes.walk w t.2
      let n := no.walk w y.2
      (.cond t.1 y.1 n.1, n.2)
  | .field base id, s =>
      let b := base.walk w (w.enter .field s)
      (.field b.1 id, b.2)
  | .includeEntity kind entity mapping ty, s =>
      let e := entity.walk w (w.enter .marker s)
      let m := mapping.walk w e.2
      (.includeEntity kind e.1 m.1 ty, m.2)
  | .includeVia kind parent ⟨params, body⟩ mapping ty, s =>
      let p := parent.walk w (w.enter .marker s)
      let b := body.walk w (w.enter .func p.2)
      let m := mapping.walk w b.2
      (.includeVia kind p.1 ⟨params, b.1⟩ m.1 ty, m.2)
  | .isNull negate operand, s =>
      let e := operand.walk w (w.enter .isNull s)
      (.isNull negate e.1, e.2)
  | .list items, s =>
      let es := Expr.walkAll w items (w.enter .list s)
      (.list es.1, es.2)
  | .map base ⟨params, body⟩, s =>
      let l := base.walk w (w.enter .map s)
      let b := body.walk w (w.enter .func l.2)
      (.map l.1 ⟨params, b.1⟩, b.2)
  | .record model fields, s =>
      let es := Expr.walkAll w fields (w.enter .record s)
      (.record model es.1, es.2)
  | .const v, s =>
      let v' := w.rewrite v (w.enter .const s)
      (.const v'.1, v'.2)

/-- The expressions with their constants rewritten, from left to right. -/
def Expr.walkAll {σ : Type} (w : Walker σ) : List Expr → σ → List Expr × σ
  | [], s => ([], s)
  | e :: es, s =>
      let h := e.walk w s
      let t := Expr.walkAll w es h.2
      (h.1 :: t.1, t.2)

end

/-- The kinds visited so far, latest first, and the number of constants put in so far. -/
structure Renumbering where
  visited : List NodeKind
  count : Nat

namespace Renumbering

/-- Record each visit, and put the numbers from zero in the place of the 64-bit constants. -/
def walker : Walker Renumbering where
  enter kind s := { s with visited := kind :: s.visited }
  rewrite v s :=
    match v with
    | .i64 _ => (.i64 (Int64.ofNat s.count), { s with count := s.count + 1 })
    | other => (other, s)

/-- The expression with its 64-bit constants numbered in the order of the walk, and the visits. -/
def run (e : Expr) : Expr × List NodeKind :=
  let walked := e.walk walker ⟨[], 0⟩
  (walked.1, walked.2.visited.reverse)

end Renumbering

end RecordMapping
