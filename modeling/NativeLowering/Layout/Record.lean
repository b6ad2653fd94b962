import NativeLowering.Layout.Buffer
import NativeLowering.Model.Traits
import NativeLowering.Text.Blank

/-!
# Function and class records

A record holds the parts of one function or class while they are written. Printing a record puts
the parts together: a function as its signature and its body in braces, a class as a block of
member declarations followed by the definitions of its methods.
-/

set_option autoImplicit false

namespace NativeLowering

/-- A parameter of a function record. -/
structure ParamRecord where
  type : String
  name : String
  /-- The default value, which only a declaration inside a class shows. -/
  default : Option String

/-- One function, method, constructor or destructor. -/
structure FunctionRecord where
  /-- The type of the result; constructors and destructors have none. -/
  returnType : Option String
  /-- What the name is qualified with in a definition outside the class. -/
  qualifier : Option String
  name : String
  params : List ParamRecord
  /-- The variables with function scope, which are declared before the body. -/
  hoisted : Buffer
  body : Buffer

namespace ParamRecord

/-- The parameter in a signature. -/
def print (param : ParamRecord) (withDefault : Bool) : String :=
  let plain := param.type ++ " " ++ param.name
  match param.default with
  | some value => if withDefault then plain ++ " = " ++ value else plain
  | none => plain

end ParamRecord

namespace FunctionRecord

/-- A record with no parameters and nothing in its body. -/
def new (layout : Layout) (returnType qualifier : Option String) (name : String) :
    FunctionRecord :=
  { returnType, qualifier, name, params := [], hoisted := .atDepth layout 1,
    body := .atDepth layout 1 }

/-- The signature, with the name qualified and default values shown as asked. -/
def signature (record : FunctionRecord) (isQualified withDefaults : Bool) : String :=
  let result := match record.returnType with
    | some type => type ++ " "
    | none => ""
  let qualifier := if isQualified then record.qualifier.getD "" else ""
  let params := ", ".intercalate (record.params.map (·.print withDefaults))
  result ++ qualifier ++ record.name ++ "(" ++ params ++ ")"

/-- The definition: the signature, then the hoisted variables and the body in braces. -/
def print (record : FunctionRecord) : String :=
  let parts := [Text.trimEnd record.hoisted.text, Text.trimEnd record.body.text].filter (· ≠ "")
  record.body.layout.newline.intercalate
    ([record.signature true false, "\x7b"] ++ parts ++ ["\x7d"])

end FunctionRecord

/-- A field of a class record. -/
structure FieldRecord where
  visibility : Visibility
  type : String
  name : String

/-- A method, constructor or destructor of a class record. -/
structure MethodRecord where
  visibility : Visibility
  function : FunctionRecord

/-- One class. -/
structure ClassRecord where
  /-- The written name. -/
  name : String
  ownership : Ownership
  fields : List FieldRecord := []
  methods : List MethodRecord := []

namespace ClassRecord

/-- Appends a group of lines under the label of a visibility, if the group has any. -/
def appendGroup (block : Buffer) (visibility : Visibility) (lines : List String) : Buffer :=
  match lines with
  | [] => block
  | _ :: _ =>
    let labelled := (block.append (visibility.spelling ++ ":") .line).indent
    (lines.foldl (fun block line => block.append line .line) labelled).dedent

/-- The lines that declare the fields of a visibility. -/
def fieldLines (record : ClassRecord) (visibility : Visibility) : List String :=
  (record.fields.filter fun field => field.visibility == visibility).map fun field =>
    field.type ++ " " ++ field.name ++ ";"

/-- The lines that declare the methods of a visibility. -/
def methodLines (record : ClassRecord) (visibility : Visibility) : List String :=
  (record.methods.filter fun method => method.visibility == visibility).map fun method =>
    method.function.signature false true ++ ";"

/-- The block of member declarations: fields, then methods, each grouped by visibility and in
declared order within a group. -/
def block (record : ClassRecord) (layout : Layout) : Buffer :=
  let header := ((Buffer.new layout).append ("class " ++ record.name) .line).append "\x7b" .line
  let withFields := Visibility.order.foldl
    (fun block visibility => appendGroup block visibility (record.fieldLines visibility)) header
  let withMethods := Visibility.order.foldl
    (fun block visibility => appendGroup block visibility (record.methodLines visibility))
    withFields
  withMethods.append "\x7d;" .inline

/-- The block of member declarations, then the definitions of the methods. -/
def print (record : ClassRecord) (layout : Layout) : String :=
  layout.blankLine.intercalate
    ((record.block layout).text :: record.methods.map fun method => method.function.print)

end ClassRecord

end NativeLowering
