import ApiFolio.Cli.Args
import ApiFolio.Cli.Program
import ApiFolio.Dict
import ApiFolio.Export.Collection
import ApiFolio.Export.Conversion
import ApiFolio.Export.FolderTree
import ApiFolio.Export.Item
import ApiFolio.Export.Operation
import ApiFolio.Export.Result
import ApiFolio.Export.Schemas
import ApiFolio.Export.Status
import ApiFolio.Journal.Conversion
import ApiFolio.Journal.Entry
import ApiFolio.Journal.Loading
import ApiFolio.Json.Basic
import ApiFolio.Json.Printer
import ApiFolio.Json.Reader
import ApiFolio.Json.Token
import ApiFolio.Main
import ApiFolio.Number.Binary64
import ApiFolio.Number.Read
import ApiFolio.Number.Shortest
import ApiFolio.Number.Text
import ApiFolio.OpenApi.Aliases
import ApiFolio.OpenApi.Components
import ApiFolio.OpenApi.Document
import ApiFolio.OpenApi.Metadata
import ApiFolio.OpenApi.Operation
import ApiFolio.OpenApi.Pointer
import ApiFolio.OpenApi.Referable
import ApiFolio.OpenApi.Schema
import ApiFolio.OpenApi.Security
import ApiFolio.Record
import ApiFolio.Source
import ApiFolio.Swagger.Document
import ApiFolio.Swagger.Pointers
import ApiFolio.Swagger.Upgrade
import ApiFolio.Text.Basic
import ApiFolio.Text.Hidden
import ApiFolio.Text.Host
import ApiFolio.Text.Quoted
import ApiFolio.Text.Template
import ApiFolio.Text.Url
import ApiFolio.Validation.Document
import ApiFolio.Validation.Issue
import ApiFolio.Validation.Raw
import ApiFolio.Yaml.Anchors
import ApiFolio.Yaml.Cursor
import ApiFolio.Yaml.Node
import ApiFolio.Yaml.Property
import ApiFolio.Yaml.Reader
import ApiFolio.Yaml.Scalar
import ApiFolio.Yaml.Scanner
import ApiFolio.Yaml.Tag
import ApiFolio.Yaml.Token
import ApiFolio.Yaml.Value
import ApiFolio.Proofs.Dict.Lookup
import ApiFolio.Proofs.Folder.Path
import ApiFolio.Proofs.Folder.Trie
import ApiFolio.Proofs.Folder.Records
import ApiFolio.Proofs.Folder.Forest
import ApiFolio.Proofs.Export.Conservation
import ApiFolio.Proofs.Json.Ordered
import ApiFolio.Proofs.Record.Written
import ApiFolio.Proofs.OpenApi.SchemaFields
import ApiFolio.Proofs.OpenApi.SchemaReread
import ApiFolio.Proofs.OpenApi.Reread
import ApiFolio.Proofs.Swagger.Pointers
import ApiFolio.Proofs.Swagger.Whole
import ApiFolio.Proofs.Export.Mapping
import ApiFolio.Proofs.Export.Settled
import ApiFolio.Proofs.Swagger.Equivalent
import ApiFolio.Proofs.Json.Reading
import ApiFolio.Proofs.Dict.Related
import ApiFolio.Proofs.Record.Replaced
import ApiFolio.Proofs.Swagger.Replaced
import ApiFolio.Proofs.OpenApi.Pointer
import ApiFolio.Proofs.Swagger.Copied
import ApiFolio.Proofs.Swagger.CopiedDocument
import ApiFolio.Proofs.Swagger.Inlining
import ApiFolio.Proofs.Swagger.SharedParts
import ApiFolio.Proofs.Swagger.Replacement
import ApiFolio.Proofs.Export.Copied
import ApiFolio.Proofs.Swagger.Spellings
import ApiFolio.Proofs.OpenApi.SchemaKept
import ApiFolio.Proofs.Export.SchemasKept
import ApiFolio.Proofs.Export.RequestBodies
import ApiFolio.Proofs.Validation.References
import ApiFolio.Proofs.Swagger.Resolution
import ApiFolio.Proofs.Folder.Inserts
import ApiFolio.Proofs.Export.Arrangement
import ApiFolio.Proofs.Validation.Clean
import ApiFolio.Proofs.Export.Parameters
import ApiFolio.Proofs.Export.Missing
import ApiFolio.Proofs.Export.ResponseIds
import ApiFolio.Proofs.OpenApi.AliasWalks
import ApiFolio.Proofs.Validation.Coercions
import ApiFolio.Proofs.OpenApi.Form
import ApiFolio.Proofs.OpenApi.StrayEntries
import ApiFolio.Proofs.Swagger.Form
import ApiFolio.Proofs.Swagger.StrayEntries
import ApiFolio.Proofs.Export.Webhooks
import ApiFolio.Proofs.Export.StrayEntries
import ApiFolio.Proofs.Folder.Nodes
import ApiFolio.Proofs.Export.Buckets
import ApiFolio.Proofs.Export.LookUps
import ApiFolio.Proofs.Swagger.EntriesKept
import ApiFolio.Proofs.Swagger.Refusals
import ApiFolio.Proofs.Export.BasePath
import ApiFolio.Proofs.Text.Template
import ApiFolio.Proofs.Validation.Places
import ApiFolio.Proofs.Export.Templates
import ApiFolio.Proofs.Dict.Listing
import ApiFolio.Proofs.OpenApi.Positions
import ApiFolio.Proofs.Validation.Unresolved
import ApiFolio.Proofs.Export.KeptParts
import ApiFolio.Proofs.Folder.Rearrangement
import ApiFolio.Proofs.Text.Filling
import ApiFolio.Proofs.Export.BaseUrl
import ApiFolio.Proofs.Export.Extra
import ApiFolio.Proofs.Json.Positions
import ApiFolio.Proofs.Swagger.MovedPointers
import ApiFolio.Proofs.Text.Digits
import ApiFolio.Proofs.Text.Quoted
import ApiFolio.Proofs.Validation.Identifiers
import ApiFolio.Proofs.Export.Names
import ApiFolio.Proofs.OpenApi.Escaping
import ApiFolio.Proofs.Export.StatusCodes
import ApiFolio.Proofs.OpenApi.Walk
import ApiFolio.Proofs.Json.Scanning
import ApiFolio.Proofs.Json.Rereading
import ApiFolio.Proofs.Json.Distinct
import ApiFolio.Proofs.OpenApi.Keywords
import ApiFolio.Proofs.Export.Contents
import ApiFolio.Proofs.Number.Rounding
import ApiFolio.Proofs.Number.Shortest
import ApiFolio.Proofs.Number.Digits
import ApiFolio.Proofs.Number.Reading
import ApiFolio.Proofs.Number.Printed
import ApiFolio.Proofs.Json.InRange
import ApiFolio.Proofs.Yaml.InRange
import ApiFolio.Proofs.OpenApi.Contents
import ApiFolio.Proofs.OpenApi.SchemaRange
import ApiFolio.Proofs.Swagger.Carried
import ApiFolio.Proofs.Swagger.Contents
import ApiFolio.Proofs.Swagger.Assembled
import ApiFolio.Proofs.Export.Composed
import ApiFolio.Proofs.Export.Unambiguous
