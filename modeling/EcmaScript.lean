import EcmaScript.Inspect.View
import EcmaScript.Json.Reader
import EcmaScript.Main
import EcmaScript.Proofs.Condition
import EcmaScript.Proofs.Array
import EcmaScript.Proofs.Integrity
import EcmaScript.Proofs.Definition
import EcmaScript.Proofs.Timer
import EcmaScript.Proofs.History
import EcmaScript.Proofs.Realm.Microtask
import EcmaScript.Proofs.Realm.DryRun
import EcmaScript.Proofs.Listing
import EcmaScript.Proofs.Pinned
import EcmaScript.Proofs.Proxy.Honest
import EcmaScript.Proofs.Proxy.Transparent
import EcmaScript.Proofs.Parser.Statement
import EcmaScript.Proofs.Realm.Stack
import EcmaScript.Proofs.Realm.Pending
import EcmaScript.Proofs.Collection.Key
import EcmaScript.Proofs.Collection.Table
import EcmaScript.Proofs.Collection.Iteration
import EcmaScript.Proofs.Collection.Live
import EcmaScript.Proofs.Arguments.Action
import EcmaScript.Proofs.Arguments.Entry
import EcmaScript.Proofs.Token.Place
import EcmaScript.Proofs.Token.Scan
import EcmaScript.Proofs.Token.Tiling
import EcmaScript.Proofs.Extent.Statement
import EcmaScript.Proofs.Progress.Statement
import EcmaScript.Proofs.Iterator
import EcmaScript.Proofs.Private
import EcmaScript.Proofs.Super
import EcmaScript.Proofs.Bound
import EcmaScript.Proofs.Realm.Refusal
import EcmaScript.Proofs.LoopScope
import EcmaScript.Proofs.Hoisting
import EcmaScript.Proofs.Inspect
import EcmaScript.Proofs.Mutators
import EcmaScript.Proofs.Sort
import EcmaScript.Proofs.Traversal
import EcmaScript.Proofs.Assignment
import EcmaScript.Proofs.Enumeration
import EcmaScript.Proofs.RoundTrip
import EcmaScript.Proofs.Token.Quoted
import EcmaScript.Proofs.Token.StringBody
import EcmaScript.Proofs.Token.Chunk
import EcmaScript.Proofs.Token.Template
import EcmaScript.Proofs.Token.LineEnding
import EcmaScript.Proofs.Operator.Tree
import EcmaScript.Proofs.Text.Split
import EcmaScript.Proofs.Json.RoundTrip
