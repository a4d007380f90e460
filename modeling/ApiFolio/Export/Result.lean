import ApiFolio.Export.Collection
import ApiFolio.Json.Printer

/-!
# Exports

Everything that the conversion of one document gives, and its JSON text.
-/

namespace ApiFolio.Export

/-- The export of a document. -/
structure Result where
  httpCollections : List Collection
  dataSchemas : List SchemaFolder
  securitySchemes : List SecurityCollection
  environments : List Environment
  /-- What has no other place in the export. -/
  extra : Dict Json
  /-- The path that all paths are below. -/
  basePath : Option String
  title : String
  description : Option String
  /-- The version of the format in which the document was written. -/
  contentVersion : String

namespace Result

def toJson (x : Result) : Json :=
  .obj (Record.put "httpCollections" (.arr (x.httpCollections.map Collection.toJson))
    ++ Record.put "dataSchemas" (.arr (x.dataSchemas.map SchemaFolder.toJson))
    ++ Record.put "securitySchemes" (.arr (x.securitySchemes.map SecurityCollection.toJson))
    ++ Record.put "environments" (.arr (x.environments.map Environment.toJson))
    ++ Record.put "extra" (.obj x.extra.entries)
    ++ Record.putOption "basePath" .str x.basePath
    ++ Record.put "title" (.str x.title)
    ++ Record.putOption "description" .str x.description
    ++ Record.put "contentVersion" (.str x.contentVersion))

def render (pretty : Bool) (x : Result) : String := x.toJson.render pretty

def apiItems (x : Result) : List ApiItem := Collection.allItemsOf x.httpCollections

def findCollection? (x : Result) (name : String) : Option Collection :=
  Collection.findIn? name x.httpCollections

end Result

end ApiFolio.Export
