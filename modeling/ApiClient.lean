import ApiClient.CommandLine
import ApiClient.Main
import ApiClient.Proofs.AliasChains
import ApiClient.Proofs.Closure
import ApiClient.Proofs.InPlace
import ApiClient.Proofs.Translation
import ApiClient.Proofs.Promises
import ApiClient.Proofs.Success
import ApiClient.Proofs.Unfolding
import ApiClient.Proofs.Drafts
import ApiClient.Proofs.PathOrder
import ApiClient.Proofs.Ignored
import ApiClient.Proofs.Growth
import ApiClient.Proofs.RequestFields
import ApiClient.Proofs.Clashes
import ApiClient.Proofs.Exports
import ApiClient.Proofs.TypeTexts
import ApiClient.Proofs.RequestBodies
import ApiClient.Proofs.Constants
import ApiClient.Proofs.Properties
import ApiClient.Proofs.Histories
import ApiClient.Proofs.Grouping
import ApiClient.Proofs.Memo
import ApiClient.Proofs.AliasStacks
import ApiClient.Proofs.Chains
import ApiClient.Proofs.Pointers
import ApiClient.Proofs.Templates
import ApiClient.Proofs.BasePaths
import ApiClient.Proofs.UnknownKeys
import ApiClient.Proofs.Combinations
import ApiClient.Proofs.ReadDescriptions
import ApiClient.Proofs.TypeNames
import ApiClient.Proofs.QuotedNames
