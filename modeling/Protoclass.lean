import Protoclass.Document.Template
import Protoclass.Main
import Protoclass.Proofs.Attribution.Agreement
import Protoclass.Proofs.Faults.Emission
import Protoclass.Proofs.Imports.Resolution
import Protoclass.Proofs.Layout.Blocks
import Protoclass.Proofs.Session.Requests
import Protoclass.Proofs.Packages.Assembly
import Protoclass.Proofs.Packages.Restriction
import Protoclass.Proofs.Imports.Merging
import Protoclass.Proofs.Packages.FlatModule
import Protoclass.Proofs.Layout.Places
import Protoclass.Proofs.Packages.DefinitionOrder
import Protoclass.Proofs.Paths.Names
import Protoclass.Proofs.Packages.Paths
import Protoclass.Proofs.Packages.Collisions
import Protoclass.Proofs.Docstring.Literal
import Protoclass.Proofs.Types.Dependence
import Protoclass.Proofs.Packages.CompilationUnit
import Protoclass.Proofs.Session.Passes
import Protoclass.Proofs.Types.Listing
import Protoclass.Proofs.Types.Fields
import Protoclass.Proofs.Schema.Compiled
import Protoclass.Proofs.Wire.Varint
import Protoclass.Proofs.Wire.Message
import Protoclass.Proofs.Wire.Encoding
import Protoclass.Proofs.Wire.Descriptor
import Protoclass.Proofs.Plugin.Answer
import Protoclass.Proofs.Paths.Cleaning
import Protoclass.Proofs.Session.Directories
import Protoclass.Proofs.Session.Startup
import Protoclass.Proofs.Session.Edits
import Protoclass.Proofs.Text.Utf8
import Protoclass.Proofs.Text.Base64
import Protoclass.Proofs.Yaml.Gaps
import Protoclass.Proofs.Yaml.Plain
import Protoclass.Proofs.Yaml.Quoted
import Protoclass.Proofs.Yaml.Block
import Protoclass.Proofs.Yaml.Styles
import Protoclass.Proofs.Yaml.Scanning
import Protoclass.Proofs.Yaml.Binary
import Protoclass.Proofs.Yaml.Lines
import Protoclass.Proofs.Yaml.Records
import Protoclass.Proofs.Yaml.Nodes
import Protoclass.Proofs.Settings.Saved
import Protoclass.Proofs.Packages.Exports
import Protoclass.Proofs.Imports.Statements
import Protoclass.Proofs.Docstring.SeeAlso
import Protoclass.Proofs.Docstring.Remaining
import Protoclass.Proofs.Plugin.Parameter
import Protoclass.Proofs.Files.Watched
import Protoclass.Proofs.Files.Following
import Protoclass.Proofs.Paths.Parents
import Protoclass.Proofs.Settings.Nearest
import Protoclass.Proofs.Command.Resolved
import Protoclass.Proofs.Command.Written
import Protoclass.Proofs.Files.Below
import Protoclass.Proofs.Files.Building
import Protoclass.Proofs.Session.Created
import Protoclass.Proofs.Attribution.Descent
import Protoclass.Proofs.Document.Writing
import Protoclass.Proofs.Docstring.Indentation
import Protoclass.Proofs.Packages.LineEnds
