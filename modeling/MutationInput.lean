import MutationInput.Text.Utf8
import MutationInput.Text.Blank
import MutationInput.Text.Quoted
import MutationInput.Binary64.Shortest
import MutationInput.Dict
import MutationInput.Library
import MutationInput.Network
import MutationInput.Number
import MutationInput.Json.Printer
import MutationInput.Json.Reader
import MutationInput.Json.Decode
import MutationInput.Tree.Grammar
import MutationInput.Tree.Document
import MutationInput.Value
import MutationInput.Document
import MutationInput.Variables
import MutationInput.Provided.Resolve
import MutationInput.Response.Basic
import MutationInput.Client
import MutationInput.Files
import MutationInput.CommandLine.Run
import MutationInput.Main
import MutationInput.Proofs.Dict
import MutationInput.Proofs.Provided.Names
import MutationInput.Proofs.Provided.Occurrence
import MutationInput.Proofs.Provided.Gather
import MutationInput.Proofs.Provided.Entries
import MutationInput.Proofs.Provided.Failures
import MutationInput.Proofs.Provided.Noninterference
import MutationInput.Proofs.Loading.Selection
import MutationInput.Proofs.Loading.Document
import MutationInput.Proofs.Provided.Requests
import MutationInput.Proofs.Provided.Inlining
import MutationInput.Proofs.Json.Values
import MutationInput.Proofs.Json.Alike
import MutationInput.Proofs.Binding
import MutationInput.Proofs.Decoding
import MutationInput.Proofs.Network
import MutationInput.Proofs.Http.Addresses
import MutationInput.Proofs.Client.Request
import MutationInput.Proofs.Client.Outcome
import MutationInput.Proofs.Client.RequestBody
import MutationInput.Proofs.Client.Data
import MutationInput.Proofs.CommandLine.Headers
import MutationInput.Proofs.CommandLine.Inputs
import MutationInput.Proofs.Http.Tokens
import MutationInput.Proofs.CommandLine.Provided
import MutationInput.Proofs.CommandLine.Execute
import MutationInput.Proofs.Tree.Takes
import MutationInput.Proofs.Tree.Words
import MutationInput.Proofs.Tree.Mutation
import MutationInput.Proofs.Provided.Written
import MutationInput.Proofs.Loading.Repeats
import MutationInput.Proofs.Provided.Strictness
import MutationInput.Proofs.Loading.Assembly
import MutationInput.Proofs.Tree.Consumes
import MutationInput.Proofs.Tree.Places
import MutationInput.Proofs.Loading.Lookup
import MutationInput.Proofs.Client.Configuration
import MutationInput.Proofs.Client.ContentType
import MutationInput.Proofs.Correspondence
import MutationInput.Proofs.Json.Recovery
import MutationInput.Proofs.Response.Recovery
import MutationInput.Proofs.Json.Sound
import MutationInput.Proofs.Client.Forms
import MutationInput.Proofs.Loading.Literals
import MutationInput.Proofs.Loading.Order
import MutationInput.Proofs.Response.Paths
import MutationInput.Proofs.Provided.Account
import MutationInput.Proofs.Text.Decoding
import MutationInput.Proofs.Provided.Equality
import MutationInput.Proofs.Provided.Successive
import MutationInput.Proofs.Provided.Ordering
