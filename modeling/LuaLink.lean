import LuaLink.Main
import LuaLink.Proofs.Bundle
import LuaLink.Proofs.Bundle.Checkout
import LuaLink.Proofs.Bundle.Code
import LuaLink.Proofs.Bundle.FileNames
import LuaLink.Proofs.Graph.Cycles
import LuaLink.Proofs.Graph.Externals
import LuaLink.Proofs.Graph.Fallback
import LuaLink.Proofs.Graph.Files
import LuaLink.Proofs.Graph.Limit
import LuaLink.Proofs.Graph.Members
import LuaLink.Proofs.Graph.Recursion
import LuaLink.Proofs.Graph.Reports
import LuaLink.Proofs.Graph.Visit
import LuaLink.Proofs.Bundle.Contents
import LuaLink.Proofs.Graph.Spelling
import LuaLink.Proofs.Path.Dots
import LuaLink.Proofs.FileTree.Insert
import LuaLink.Proofs.Workspace.Written
import LuaLink.Proofs.EntryFiles
import LuaLink.Proofs.Workspace.Directory
import LuaLink.Proofs.Project
import LuaLink.Proofs.Lua.Enclosed
import LuaLink.Proofs.Lua.LineEnds.Requires
import LuaLink.Proofs.Project.Anywhere
import LuaLink.Proofs.Project.Output
import LuaLink.Proofs.LoadPlan.Checks
import LuaLink.Proofs.Lua.ByteEscape
import LuaLink.Proofs.SearchPath.Order
import LuaLink.Proofs.SearchPath.Within
import LuaLink.Proofs.CommandLine.Picker
import LuaLink.Proofs.EntryFiles.Listing
import LuaLink.Proofs.Json.Reader
import LuaLink.Proofs.Options.Faults
import LuaLink.Proofs.Options.Precedence
