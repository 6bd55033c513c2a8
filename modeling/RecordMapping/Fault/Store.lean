import RecordMapping.Fault.Basic

/-!
# Faults held by several handles

Where several handles may refer to one fault, faults live in a store and a handle is a position in
it. Putting a fault under another one as its cause changes the latter in place if nobody else holds
it. If somebody does, the store gets a new fault with the text of the held one instead.

## Implementation notes

A fault is held by the handles in use and by the faults it is a cause of. Whether one is held is
found out by following the causes of every handle in use. Following is bounded by the size of the
store; no chain of causes is longer, as a fault never becomes a cause of itself.
-/

namespace RecordMapping

namespace FaultKind

/-- Whether a list of arguments or replacements has the wrong length. -/
def isArity : FaultKind → Bool
  | .arity _ _ => true
  | _ => false

/-- Whether an expression cannot be evaluated. -/
def isEvaluation : FaultKind → Bool
  | .evaluation _ => true
  | _ => false

/-- Whether a schema is refused. -/
def isSchema : FaultKind → Bool
  | .schema _ => true
  | _ => false

/-- Whether a type is not the declared one. -/
def isMismatch : FaultKind → Bool
  | .mismatch _ _ => true
  | _ => false

/-- Whether a parameter has no value. -/
def isUnbound : FaultKind → Bool
  | .unbound _ => true
  | _ => false

/-- Whether a mapping argument cannot be used. -/
def isMarker : FaultKind → Bool
  | .marker _ => true
  | _ => false

end FaultKind

/-- A fault in a store; its cause is another position of the store. -/
structure FaultNode where
  kind : FaultKind
  cause : Option Nat

/-- Faults by position. -/
structure FaultStore where
  nodes : Array FaultNode := #[]

namespace FaultStore

/-- Add a fault without a cause. -/
def add (store : FaultStore) (kind : FaultKind) : FaultStore × Nat :=
  (⟨store.nodes.push ⟨kind, none⟩⟩, store.nodes.size)

/-- The positions met by following causes, at most the given number of them. -/
def follow (store : FaultStore) : Nat → Nat → List Nat
  | 0, _ => []
  | bound + 1, handle =>
      match store.nodes[handle]? with
      | none => []
      | some node =>
          handle :: match node.cause with
            | none => []
            | some cause => store.follow bound cause

/-- The position of a fault and those of its causes, nearest first. -/
def chain (store : FaultStore) (handle : Nat) : List Nat := store.follow store.nodes.size handle

/-- The kinds of a fault and its causes, nearest first. -/
def kinds (store : FaultStore) (handle : Nat) : List FaultKind :=
  (store.chain handle).filterMap fun position => store.nodes[position]?.map FaultNode.kind

/-- The fault that a handle refers to. -/
def read? (store : FaultStore) (handle : Nat) : Option Fault :=
  match store.kinds handle with
  | [] => none
  | kind :: causes => some ⟨kind, causes⟩

/-- The fault that caused the one a handle refers to. -/
def source? (store : FaultStore) (handle : Nat) : Option Fault :=
  (store.nodes[handle]?.bind FaultNode.cause).bind store.read?

/-- Whether one of the handles refers to the fault or to one that it is a cause of. -/
def isHeld (store : FaultStore) (handles : List Nat) (position : Nat) : Bool :=
  handles.any fun handle => (store.chain handle).contains position

/-- Put the fault `cause` under the fault `consequent`, where `others` are the handles in use
besides these two. There is no result if `consequent` already has a cause. -/
def attach (store : FaultStore) (others : List Nat) (cause consequent : Nat) :
    Option (FaultStore × Nat) :=
  match store.nodes[consequent]? with
  | none => none
  | some node =>
      if node.cause.isSome then none
      else if store.isHeld (cause :: others) consequent then
        some (⟨store.nodes.push ⟨.adhoc node.kind.text, some cause⟩⟩, store.nodes.size)
      else
        some (⟨store.nodes.setIfInBounds consequent ⟨node.kind, some cause⟩⟩, consequent)

/-- A fault that has a cause is never given another one. -/
theorem attach_eq_none_of_cause {store : FaultStore} {consequent : Nat} {node : FaultNode}
    (h : store.nodes[consequent]? = some node) (hc : node.cause.isSome = true)
    (others : List Nat) (cause : Nat) : store.attach others cause consequent = none := by
  simp [attach, h, hc]

end FaultStore

end RecordMapping
