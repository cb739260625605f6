import NameResolution.SwitchSet
import NameResolution.Name
import NameResolution.Name.Interner
import NameResolution.Span
import NameResolution.Diagnostic
import NameResolution.Diagnostic.SipHash
import NameResolution.Diagnostic.Queue
import NameResolution.Symbol
import NameResolution.TypeRef
import NameResolution.Universe
import NameResolution.Wording
import NameResolution.Table
import NameResolution.Table.Hierarchy
import NameResolution.Table.Universe
import NameResolution.Meaning
import NameResolution.Scope
import NameResolution.Mode
import NameResolution.Import
import NameResolution.Precedence
import NameResolution.Reporting
import NameResolution.Session
import NameResolution.Context
import NameResolution.Context.State
import NameResolution.Context.Construction
import NameResolution.Store
import NameResolution.View
import NameResolution.Access
import NameResolution.Lookup
import NameResolution.Lookup.Result
import NameResolution.Implicit
import NameResolution.Implicit.Candidate
import NameResolution.Implicit.Level
import NameResolution.Attempt
import NameResolution.UnusedImports
import NameResolution.Proofs.Chain
import NameResolution.Proofs.Lookup.Binding
import NameResolution.Proofs.Lookup.Contest
import NameResolution.Proofs.Lookup.Arbitration
import NameResolution.Proofs.Lookup.Winner
import NameResolution.Proofs.Lookup.Pruning
import NameResolution.Proofs.Lookup.Soundness
import NameResolution.Proofs.Declarations
import NameResolution.Proofs.Hierarchy
import NameResolution.Proofs.Hierarchy.Preorder
import NameResolution.Proofs.Hierarchy.OverrideChain
import NameResolution.Proofs.Overriding
import NameResolution.Proofs.Access
import NameResolution.Proofs.Lookup.Enclosing
import NameResolution.Proofs.Lookup.Copies
import NameResolution.Proofs.Lookup.Visibility
import NameResolution.Proofs.History
import NameResolution.Proofs.Lookup.Effects
import NameResolution.Proofs.Lookup.Settings
import NameResolution.Proofs.Lookup.Usage
import NameResolution.Proofs.UnusedImports
import NameResolution.Proofs.Channels
import NameResolution.Proofs.Openings
import NameResolution.Proofs.Reporting.Operations
import NameResolution.Proofs.Reporting.Confinement
import NameResolution.Proofs.Reporting.Transit
import NameResolution.Proofs.Reporting.Journal
import NameResolution.Proofs.Reporting.Divergence
import NameResolution.Proofs.Calls
import NameResolution.Proofs.Speculation
import NameResolution.Proofs.Lookup.Clause
import NameResolution.Proofs.Implicit.Selectors
import NameResolution.Proofs.Implicit.Imports
import NameResolution.Proofs.Links
import NameResolution.Proofs.Lookup.Preference
import NameResolution.Proofs.Lookup.Rank
import NameResolution.Proofs.Lookup.Interop
import NameResolution.Proofs.Lookup.Ties
import NameResolution.Proofs.Lookup.Parameters
import NameResolution.Proofs.Lookup.Surroundings
import NameResolution.Proofs.Access.Instance
import NameResolution.Proofs.Access.Overridden
import NameResolution.Proofs.Access.Encapsulation
import NameResolution.Proofs.Implicit.Cache
import NameResolution.Proofs.Implicit.Copies
import NameResolution.Proofs.Implicit.Rounds
import NameResolution.Proofs.Implicit.Sources
import NameResolution.Proofs.Forwarding
import NameResolution.Proofs.Conformance
import NameResolution.Proofs.Conduct
import NameResolution.Proofs.Attempts
import NameResolution.Proofs.Ownership
import NameResolution.Proofs.Lookup.Meaning
import NameResolution.Proofs.Queue.Accounts
import NameResolution.Proofs.Queue.Repetition
import NameResolution.Proofs.Queue.Order
import NameResolution.Proofs.Interning
import NameResolution.Proofs.Scopes
import NameResolution.Proofs.RootImports
import NameResolution.Proofs.Resolution
import NameResolution.Proofs.Lookup.RootImports
import NameResolution.Proofs.Lookup.RootShadowing
