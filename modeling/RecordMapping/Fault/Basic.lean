import RecordMapping.Ty
import RecordMapping.Text.Quoted

/-!
# Faults

A fault says why an operation has no result. It has a kind, and the kinds of the faults it was
caused by, nearest first. The text of a fault joins the texts of all of them with colons.

## Implementation notes

Each kind carries the data its text is made from, and the wording stands in one function per kind.
A reason that a caller phrases in its own words is `custom`; it has the same kind and so the same
leading words as the reasons of the library.
-/

namespace RecordMapping

/-- The shapes of values that messages tell apart. -/
inductive ValueKind where
  | bool
  | i32
  | i64
  | null
  | record
  | list
  | string
  | func
  | mapping
  deriving DecidableEq

/-- The word for a shape of values. -/
def ValueKind.name : ValueKind → String
  | .bool => "Bool"
  | .i32 => "I32"
  | .i64 => "I64"
  | .null => "Null"
  | .record => "Record"
  | .list => "List"
  | .string => "String"
  | .func => "Func"
  | .mapping => "Mapping"

/-- What the mapping argument of a marker has to be. -/
inductive MarkerKind where
  /-- A function or a mapping, of which the function is used. -/
  | ast
  /-- A mapping, whose compiled form is used where records are mapped in memory. -/
  | compiled
  deriving DecidableEq

/-- The word for a kind of marker. -/
def MarkerKind.name : MarkerKind → String
  | .ast => "Ast"
  | .compiled => "Compiled"

/-- The arguments that a kind of marker takes, in words. -/
def MarkerKind.wanted : MarkerKind → String
  | .ast => "function or mapping"
  | .compiled => "mapping"

/-- Why the evaluation of an expression fails. -/
inductive EvalDefect where
  /-- A condition is not a truth value. -/
  | notBool (found : ValueKind)
  /-- A lambda is mapped over something that is not a list. -/
  | notList (found : ValueKind)
  /-- A record is too short for the field. -/
  | missingField (field : FieldId)
  /-- A field is read from null. -/
  | nullDereference (field : FieldId)
  /-- A field is read from something that is neither a record nor null. -/
  | notRecord (field : FieldId) (found : ValueKind)
  /-- Two values without a common order are compared. -/
  | unordered (left right : ValueKind)
  /-- Something that is neither a function nor a mapping is called. -/
  | notCallable (found : ValueKind)
  /-- A reason in the words of the caller. -/
  | custom (text : String)
  deriving DecidableEq

/-- Why a schema is refused. -/
inductive SchemaDefect where
  /-- Two models share the name. -/
  | duplicateModel (name : String)
  /-- Two fields of the model share the name. -/
  | duplicateField (model field : String)
  /-- The declared key of a relation is not a primitive field of the declaring model. -/
  | invalidKey (model field : String)
  /-- A relation points to a model that was never declared. -/
  | undeclaredTarget (model field : String) (target : ModelId)
  /-- A reason in the words of the caller. -/
  | custom (text : String)
  deriving DecidableEq

/-- Why the mapping argument of a marker cannot be used. -/
inductive MarkerDefect where
  /-- The argument cannot be evaluated ahead of any record; the cause says why. -/
  | dependsOnRecord
  /-- The argument evaluates to something the marker does not take. -/
  | wrongArgument (kind : MarkerKind) (found : ValueKind)
  /-- A reason in the words of the caller. -/
  | custom (text : String)
  deriving DecidableEq

/-- What kind of fault it is, with the data of its text. -/
inductive FaultKind where
  /-- A fault without a class of its own. -/
  | adhoc (text : String)
  /-- A list of arguments or replacements has the wrong length. -/
  | arity (expected found : Nat)
  /-- An expression cannot be evaluated. -/
  | evaluation (defect : EvalDefect)
  /-- A schema is refused. -/
  | schema (defect : SchemaDefect)
  /-- An included mapping gives a type that its marker did not declare. -/
  | mismatch (declared inferred : Ty)
  /-- A parameter has no value. -/
  | unbound (name : String)
  /-- The mapping argument of a marker cannot be used. -/
  | marker (defect : MarkerDefect)
  deriving DecidableEq

/-- A kind of fault together with the kinds of its causes, nearest first. -/
structure Fault where
  kind : FaultKind
  causes : List FaultKind
  deriving DecidableEq

/-- The wording of a failed evaluation. -/
def EvalDefect.text : EvalDefect → String
  | .notBool found => "expected Bool, found " ++ found.name
  | .notList found => "Map base must evaluate to a list, found " ++ found.name
  | .missingField field => "record has no field " ++ field.text
  | .nullDereference field => "null dereference reading field " ++ field.text
  | .notRecord field found =>
      "cannot read field " ++ field.text ++ " of a value of kind " ++ found.name
  | .unordered left right => "cannot order " ++ left.name ++ " and " ++ right.name
  | .notCallable found => "cannot call a value of kind " ++ found.name
  | .custom text => text

/-- The wording of a refused schema. -/
def SchemaDefect.text : SchemaDefect → String
  | .duplicateModel name => "duplicate model `" ++ name ++ "`"
  | .duplicateField model field => "duplicate field `" ++ model ++ "::" ++ field ++ "`"
  | .invalidKey model field =>
      "foreign key of `" ++ model ++ "::" ++ field ++ "` must be a primitive field of `" ++ model
        ++ "`"
  | .undeclaredTarget model field target =>
      "relation `" ++ model ++ "::" ++ field ++ "` targets undeclared model " ++ target.text
  | .custom text => text

/-- The wording of a mapping argument that cannot be used. -/
def MarkerDefect.text : MarkerDefect → String
  | .dependsOnRecord => "mapping argument must not depend on the mapped record"
  | .wrongArgument kind found =>
      kind.name ++ " include expects a " ++ kind.wanted ++ ", found " ++ found.name
  | .custom text => text

/-- The text of one kind of fault, without its causes. -/
def FaultKind.text : FaultKind → String
  | .adhoc text => text
  | .arity expected found =>
      "arity mismatch: expected " ++ toString expected ++ " argument(s), found " ++ toString found
  | .evaluation defect => "expression evaluation failed: " ++ defect.text
  | .schema defect => "invalid schema: " ++ defect.text
  | .mismatch declared inferred =>
      "type mismatch: expected " ++ declared.text ++ ", found " ++ inferred.text
  | .unbound name => "expression depends on unbound parameter `" ++ name ++ "`"
  | .marker defect => "unresolved marker argument: " ++ defect.text

/-- The shape of one kind of fault for a reader. -/
def FaultKind.outline : FaultKind → Text.Outline
  | .adhoc text => labelled "Adhoc" "AdhocError" (message text)
  | .arity expected found =>
      labelled "ArityMismatch" "ArityMismatch"
        [.named "expected" (.word (toString expected)), .named "actual" (.word (toString found))]
  | .evaluation defect =>
      labelled "ExpressionEvaluationFailed" "ExpressionEvaluationFailed" (message defect.text)
  | .schema defect => labelled "InvalidSchema" "InvalidSchema" (message defect.text)
  | .mismatch declared inferred =>
      labelled "TypeMismatch" "TypeMismatch"
        [.named "expected" declared.outline, .named "actual" inferred.outline]
  | .unbound name =>
      labelled "UnboundExpression" "UnboundExpression"
        [.named "param" (.word (Text.Quoted.encode name))]
  | .marker defect =>
      labelled "UnresolvedMarkerArgument" "UnresolvedMarkerArgument" (message defect.text)
where
  labelled (kind detail : String) (items : List Text.Outline) : Text.Outline :=
    .tuple kind [.record detail items false]
  message (text : String) : List Text.Outline :=
    [.named "message" (.word (Text.Quoted.encode text))]

namespace Fault

/-- A fault without a cause. -/
def root (kind : FaultKind) : Fault := ⟨kind, []⟩

/-- The fault and its causes, nearest first. -/
def chain (fault : Fault) : List FaultKind := fault.kind :: fault.causes

/-- A new fault with this one as its cause. -/
def under (cause : Fault) (kind : FaultKind) : Fault := ⟨kind, cause.chain⟩

/-- The texts of the fault and its causes, joined with colons. -/
def text (fault : Fault) : String := String.intercalate ": " (fault.chain.map FaultKind.text)

/-- The shape of a chain of faults, each inside the one it caused. -/
def outlineChain : FaultKind → List FaultKind → Text.Outline
  | kind, [] => entry kind none
  | kind, cause :: rest => entry kind (some (outlineChain cause rest))
where
  entry (kind : FaultKind) (cause : Option Text.Outline) : Text.Outline :=
    .record "Error" [.named "kind" kind.outline, .named "cause" (.option cause)] false

/-- The shape of the fault for a reader. -/
def outline (fault : Fault) : Text.Outline := outlineChain fault.kind fault.causes

@[simp] theorem chain_root (kind : FaultKind) : (root kind).chain = [kind] := rfl

@[simp] theorem chain_under (cause : Fault) (kind : FaultKind) :
    (cause.under kind).chain = kind :: cause.chain := rfl

@[simp] theorem text_root (kind : FaultKind) : (root kind).text = kind.text := by
  simp [text]

end Fault

end RecordMapping
