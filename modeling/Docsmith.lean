import Docsmith.Calls.Reader
import Docsmith.Exchange.Definition
import Docsmith.Exchange.Document
import Docsmith.Exchange.Folder
import Docsmith.Exchange.Session
import Docsmith.Generate.Listing
import Docsmith.Json.Order
import Docsmith.Json.Shown
import Docsmith.Main
import Docsmith.Settings
import Docsmith.Proofs.Reports
import Docsmith.Proofs.Introduced
import Docsmith.Proofs.Unpacking
import Docsmith.Proofs.Reexports
import Docsmith.Proofs.Shadowing
import Docsmith.Proofs.SpanText
import Docsmith.Proofs.RelativeImports
import Docsmith.Proofs.Substitution
import Docsmith.Proofs.Collapsing
import Docsmith.Proofs.Composed
import Docsmith.Proofs.Outline
import Docsmith.Proofs.Escaping
import Docsmith.Proofs.Neighbourhood
import Docsmith.Proofs.Questions
import Docsmith.Proofs.TypeNames
import Docsmith.Proofs.Clusters
