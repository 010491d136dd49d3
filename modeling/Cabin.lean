import Cabin.Lts.Basic
import Cabin.Store.Table
import Cabin.Exec.Except
import Cabin.Store.Sessions
import Cabin.Store.Atomic
import Cabin.Store.Files
import Cabin.Text.Basic
import Cabin.Text.Json
import Cabin.Text.Infix
import Cabin.Text.Base64
import Cabin.Text.Loads
import Cabin.Net.Ip
import Cabin.X509.Basic
import Cabin.X509.Transparent
import Cabin.Ca.X509
import Cabin.Ca.Leaf
import Cabin.Ca.Store
import Cabin.Ca.Service
import Cabin.Ca.Certs
import Cabin.Ca.Crl
import Cabin.Ca.Hierarchy
import Cabin.Ca.Machine
import Cabin.Ca.Sound
import Cabin.Ca.Links
import Cabin.Ca.Bookkeeping
import Cabin.Ca.Chains
import Cabin.Ca.Subjects
import Cabin.Ca.Retired
import Cabin.Ca.Publication
import Cabin.Ca.LastIssuer
import Cabin.Secrets
import Cabin.Users.Basic
import Cabin.Users.Superadmins
import Cabin.Users.Grants
import Cabin.Acme.Store
import Cabin.Acme.Identifiers
import Cabin.Acme.Service
import Cabin.Acme.Calls
import Cabin.Acme.Changes
import Cabin.Acme.Interleaving
import Cabin.Acme.Challenges
import Cabin.Acme.Issuance
import Cabin.Acme.Polls
import Cabin.Acme.Jws
import Cabin.Acme.Nonces
import Cabin.Acme.Base64url
import Cabin.Ca.Anchors
import Cabin.Ca.Paths
import Cabin.Acme.Accounts
import Cabin.Acme.Registration
import Cabin.Acme.AccountSteps
import Cabin.Acme.AccountKeys
import Cabin.Acme.Bindings
import Cabin.Acme.Server
import Cabin.Acme.Ownership
import Cabin.Acme.OwnRows
import Cabin.Acme.Places
import Cabin.Acme.Isolation
import Cabin.Text.Digits
import Cabin.Acme.Paths
import Cabin.Text.Labels
import Cabin.Text.Lines
import Cabin.Text.Case
import Cabin.Net.IpText
import Cabin.Ca.Names
import Cabin.Ca.Constraints
import Cabin.Ca.Renewal
import Cabin.Ca.Retirement
import Cabin.Ca.CrossImports
import Cabin.Ca.Requests
import Cabin.Ca.StoredNames
import Cabin.Ca.Forms
import Cabin.Ca.Inputs
import Cabin.Ca.Previews
import Cabin.Acme.Outcomes
import Cabin.Acme.Spellings
import Cabin.Acme.Finalizable
import Cabin.Net.Networks
import Cabin.Ca.ConstraintLines
import Cabin.Text.Utf8
import Cabin.Acme.Targets
import Cabin.Acme.Http01
import Cabin.Text.Unicode
import Cabin.Net.Url
import Cabin.Settings
import Cabin.Tls.Manager
import Cabin.Tls.Settling
import Cabin.Secrets.Opening
import Cabin.Text.Iso
import Cabin.Text.Like
import Cabin.Ca.Inventory
import Cabin.Ca.Search
import Cabin.Audit
import Cabin.Ca.Freshness
import Cabin.Users.Sessions
import Cabin.Audit.Record
import Cabin.Users.Tokens
import Cabin.Users.TokenUse
import Cabin.Text.Replace
import Cabin.Acme.KeyAuth
import Cabin.Acme.Dns01
import Cabin.Acme.TlsAlpn01
import Cabin.Acme.Resolvers
import Cabin.Acme.Validation
import Cabin.Acme.Control
import Cabin.Users.Expiry
import Cabin.Text.Csv
import Cabin.Ca.Export
import Cabin.Lts.Replay
import Cabin.Site.Requests
import Cabin.Site.Ledger
import Cabin.Site.Log
import Cabin.Site.Access
