import Stencil.Main
import Stencil.Files.Tree
import Stencil.Markup.Numbering
import Stencil.Proofs.Markup.Forest
import Stencil.Proofs.Markup.Rewriting
import Stencil.Proofs.Markup.Evolution
import Stencil.Proofs.Markup.Values
import Stencil.Proofs.Editing
import Stencil.Proofs.Lineage
import Stencil.Proofs.Copies
import Stencil.Proofs.Independence
import Stencil.Proofs.Component.Binding
import Stencil.Proofs.Component.Root
import Stencil.Proofs.Component.Stamping
import Stencil.Proofs.Component.Sites
import Stencil.Proofs.Css.Renumbering
import Stencil.Proofs.Script.Expansion
import Stencil.Proofs.Script.Loop
import Stencil.Proofs.Script.Diagnostic
import Stencil.Proofs.Text.Cutting
import Stencil.Proofs.Xml.Reference
import Stencil.Proofs.Xml.Tag
import Stencil.Proofs.Xml.Item
import Stencil.Proofs.Xml.Normal
import Stencil.Proofs.Xml.RoundTrip
import Stencil.Proofs.Xml.Names
import Stencil.Proofs.Html.Token
import Stencil.Proofs.Html.Building
import Stencil.Proofs.Html.Rules
import Stencil.Proofs.Html.Reading
import Stencil.Proofs.Files.Path
import Stencil.Proofs.Store
import Stencil.Proofs.Engine
import Stencil.Proofs.Script.Kept
import Stencil.Proofs.Script.Inert
import Stencil.Proofs.Script.Joined
import Stencil.Proofs.Component.Frame
import Stencil.Proofs.Component.Order
import Stencil.Proofs.Dialect
import Stencil.Proofs.Html.Slot
import Stencil.Proofs.Html.Void
import Stencil.Proofs.Xml.Items
import Stencil.Proofs.Xml.Events
import Stencil.Proofs.Xml.Kinds
import Stencil.Proofs.Xml.Sections
import Stencil.Proofs.Text.Case
import Stencil.Proofs.Text.Bytes
import Stencil.Proofs.Component.Keys
import Stencil.Proofs.Component.Detached
import Stencil.Proofs.Registry
import Stencil.Proofs.Filling
import Stencil.Proofs.Attributes
import Stencil.Proofs.StartTag
import Stencil.Proofs.Component.Fields
import Stencil.Proofs.Script.Rules
import Stencil.Proofs.Script.Clause
import Stencil.Proofs.Script.Index
import Stencil.Proofs.Script.Lexing
import Stencil.Proofs.Script.Separators
import Stencil.Proofs.Script.Region
import Stencil.Proofs.Script.Placement
import Stencil.Proofs.Script.Warning
