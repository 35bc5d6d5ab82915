import SourceDoc.CommandLine.Arguments
import SourceDoc.CommandLine.Inputs
import SourceDoc.CommandLine.Report
import SourceDoc.CommandLine.Run
import SourceDoc.CommandLine.Step
import SourceDoc.Config.Basic
import SourceDoc.Config.OfToml
import SourceDoc.Declaration
import SourceDoc.DocBlock
import SourceDoc.Event
import SourceDoc.Failure
import SourceDoc.FileTree.Access
import SourceDoc.FileTree.Basic
import SourceDoc.Glob.Pattern
import SourceDoc.Glob.Search
import SourceDoc.Item.Basic
import SourceDoc.Item.Build
import SourceDoc.Json
import SourceDoc.Keyed
import SourceDoc.Kind
import SourceDoc.Language.Basic
import SourceDoc.Language.C.Declaration
import SourceDoc.Language.C.Lexer
import SourceDoc.Language.Lua.Declaration
import SourceDoc.Language.Lua.Lexer
import SourceDoc.Language.Lua.ModuleCall
import SourceDoc.Language.Table
import SourceDoc.Link
import SourceDoc.Main
import SourceDoc.Module.Draft
import SourceDoc.Module.Merge
import SourceDoc.Module.Name
import SourceDoc.Module.References
import SourceDoc.Path
import SourceDoc.Project.Assemble
import SourceDoc.Project.Basic
import SourceDoc.Project.Render
import SourceDoc.Tag.DocText
import SourceDoc.Tag.Line
import SourceDoc.Tag.Rules
import SourceDoc.Tag.Table
import SourceDoc.Text.Alphabetic
import SourceDoc.Text.Basic
import SourceDoc.Text.Uppercase
import SourceDoc.Text.WordChar
import SourceDoc.Token.Basic
import SourceDoc.Toml.Basic
import SourceDoc.Toml.Document
import SourceDoc.Toml.Moment
import SourceDoc.Toml.Numbers
import SourceDoc.Toml.Strings
import SourceDoc.Toml.Tree
import SourceDoc.Workspace.Basic
import SourceDoc.Workspace.Scan
import SourceDoc.Proofs.Except
import SourceDoc.Proofs.Keyed
import SourceDoc.Proofs.KindList
import SourceDoc.Proofs.KindGroups
import SourceDoc.Proofs.Project.Assemble
import SourceDoc.Proofs.Module.Merge
import SourceDoc.Proofs.Module.Ownership
import SourceDoc.Proofs.Project.Placement
import SourceDoc.Proofs.Project.Links
import SourceDoc.Proofs.DocBlock.Basic
import SourceDoc.Proofs.DocBlock.Opening
import SourceDoc.Proofs.Token.Lossless
import SourceDoc.Proofs.Project.HiddenLocals
import SourceDoc.Proofs.Text.Lines
import SourceDoc.Proofs.DocBlock.Grouping
import SourceDoc.Proofs.Tag.Naming
import SourceDoc.Proofs.Project.Failures
import SourceDoc.Proofs.Workspace.Runs
import SourceDoc.Proofs.Workspace.Classes
import SourceDoc.Proofs.Language.LuaFunction
import SourceDoc.Proofs.DocBlock.Written
import SourceDoc.Proofs.Item.Params
import SourceDoc.Proofs.Tag.Written
import SourceDoc.Proofs.Workspace.DocumentedFunction
import SourceDoc.Proofs.Project.Shape
import SourceDoc.Proofs.Json.Reader
import SourceDoc.Proofs.Project.Decoding
import SourceDoc.Proofs.Project.ShownLocals
import SourceDoc.Proofs.Project.Keys
import SourceDoc.Proofs.Tag.LineEnds
import SourceDoc.Proofs.Language.CommentLineEnds
import SourceDoc.Proofs.Token.LineEnds
import SourceDoc.Proofs.Token.Alike
import SourceDoc.Proofs.DocBlock.LineEnds
import SourceDoc.Proofs.Workspace.LineEnds
import SourceDoc.Proofs.Module.Union
import SourceDoc.Proofs.DocBlock.LineComments
import SourceDoc.Proofs.Project.QualifiedNames
import SourceDoc.Proofs.Tag.Values
import SourceDoc.Proofs.Item.Order
import SourceDoc.Proofs.Language.Reading
import SourceDoc.Proofs.Language.CPrototype
import SourceDoc.Proofs.Language.LuaDeclaration
import SourceDoc.Proofs.Language.CArraySuffix
import SourceDoc.Proofs.Tag.Extraction
import SourceDoc.Proofs.DocBlock.Layout
import SourceDoc.Proofs.Token.Boundary
import SourceDoc.Proofs.Workspace.FirstComment
import SourceDoc.Proofs.Workspace.Seeds
import SourceDoc.Proofs.Language.BlockComments
import SourceDoc.Proofs.Language.BlockMarkers
import SourceDoc.Proofs.DocBlock.Notes
import SourceDoc.Proofs.Token.Literals
import SourceDoc.Proofs.Token.Cutoff
import SourceDoc.Proofs.InlineLink
import SourceDoc.Proofs.Language.ModuleCalls
import SourceDoc.Proofs.Item.ParamOrder
import SourceDoc.Proofs.Tag.Aliases
import SourceDoc.Proofs.Language.NamedModules
import SourceDoc.Proofs.Workspace.CalledModule
import SourceDoc.Proofs.Path.Components
import SourceDoc.Proofs.Path.Order
import SourceDoc.Proofs.CommandLine.Inputs
import SourceDoc.Proofs.DocBlock.Tagged
import SourceDoc.Proofs.Workspace.Configured
import SourceDoc.Proofs.Tag.Updates
import SourceDoc.Proofs.Tag.Summary
import SourceDoc.Proofs.Module.Layout
import SourceDoc.Proofs.FileTree.Put
import SourceDoc.Proofs.FileTree.Write
import SourceDoc.Proofs.CommandLine.Run
