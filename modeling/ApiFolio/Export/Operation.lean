import ApiFolio.Export.Schemas
import ApiFolio.Export.Status

/-!
# Exporting an operation

An operation takes its name from its summary, its identifier or its path, the parameters of its
path unless it has its own of the same name and place, its responses by status, and the body that
its request points at.
-/

namespace ApiFolio.Export

open OpenApi

/-- What an operation is exported with: the components it points into, and where the chains of
request bodies end. -/
structure Surroundings where
  components : Option Components
  /-- The ends of the chains of request bodies. -/
  ends : AliasEnds
deriving Inhabited

/-- The media type of a response or body that its pointer does not lead to. -/
def defaultContentType : String := "application/json"

namespace Surroundings

variable (around : Surroundings)

/-- The parameter that stands here or that is pointed at. -/
def parameter? : Referable Parameter → Option Parameter
  | .item p => some p
  | .ref pointer => around.components.bind fun c => c.parameter? pointer

/-- Adds a parameter to a list, in the place of one with the same name and place. -/
def mergeParameter : List Parameter → Parameter → List Parameter
  | [], p => [p]
  | q :: rest, p =>
    if q.name = p.name ∧ q.location = p.location then p :: rest
    else q :: mergeParameter rest p

/-- The parameters of an operation of a path, later ones in the place of earlier ones with the
same name and place. -/
def merged (item : PathItem) (op : Operation) : List Parameter :=
  ((item.parameters ++ op.parameters).filterMap around.parameter?).foldl mergeParameter []

def parameterItem (p : Parameter) : ParameterItem where
  name := p.name
  required := p.required.getD false
  description := p.description
  deprecated := p.deprecated.getD false
  schema := p.schema <|> p.content.firstSchema?
  sample := p.sample

/-- The parameters of a list that stand in one place. -/
def bucket (location : String) (ps : List Parameter) : List ParameterItem :=
  (ps.filter fun p => p.location = location).map parameterItem

/-- The parameters of an operation by place; those in no known place are left out. -/
def parameters (item : PathItem) (op : Operation) : ParameterBuckets :=
  let ps := around.merged item op
  { path := bucket "path" ps, query := bucket "query" ps, header := bucket "header" ps,
    cookie := bucket "cookie" ps }

def responseItem (path method status : String) : Referable Response → ResponseItem
  | .ref pointer =>
    let target := around.components.bind fun c => c.response? pointer
    { id := method ++ ":" ++ path ++ ":" ++ status
      name := status
      code := statusCode status
      contentType := (target.map fun r => r.content.firstType).getD defaultContentType
      description := target.bind fun r => nonEmpty? r.description
      jsonSchema := some (.pointingTo pointer) }
  | .item r =>
    { id := method ++ ":" ++ path ++ ":" ++ status
      name := status
      code := statusCode status
      contentType := r.content.firstType
      description := nonEmpty? r.description
      jsonSchema := r.content.firstSchema? }

/-- The request body that a pointer to the end of a chain names. -/
def bodyAt? (target : String) : Option RequestBody :=
  around.components.bind fun c => c.requestBody? target

/-- Exports the body of a request; one whose chain of aliases has no end is left out. -/
def requestBody? : Referable RequestBody → Option RequestBodyItem
  | .ref pointer =>
    (around.ends.target? pointer).map fun target =>
      let body := around.bodyAt? target
      { required := (body.bind (·.required)).getD false
        contentType := (body.map fun b => b.content.firstType).getD defaultContentType
        description := body.bind (·.description)
        jsonSchema := some (.pointingTo target) }
  | .item body =>
    some {
      required := body.required.getD false, contentType := body.content.firstType,
      description := body.description, jsonSchema := body.content.firstSchema? }

/-- The name of an operation: its summary unless it is empty, else its identifier, else its path.
-/
def itemName (path : String) (op : Operation) : String :=
  match op.summary.bind nonEmpty? with
  | some summary => summary
  | none => op.operationId.getD path

/-- Exports the operation that a path item has under a verb. -/
def apiItem (path method : String) (item : PathItem) (op : Operation) (webhook : Bool) :
    ApiItem where
  name := itemName path op
  description := op.description
  operationId := op.operationId
  path := path
  method := method
  tags := op.tags
  deprecated := op.deprecated.getD false
  webhook := webhook
  parameters := around.parameters item op
  responses := op.responses.entries.map fun e => around.responseItem path method e.1 e.2
  requestBody := op.requestBody.bind around.requestBody?

/-- Exports the operations of a path item, in the order of the verbs. -/
def apiItems (path : String) (item : PathItem) (webhook : Bool) : List ApiItem :=
  item.operations.map fun vo => around.apiItem path vo.1.name item vo.2 webhook

end Surroundings

end ApiFolio.Export
