import Eligibility.Main
import Eligibility.RuleId
import Eligibility.Service.Request
import Eligibility.Proofs.RuleTree.Depth
import Eligibility.Proofs.RoundTrip.JsonText
import Eligibility.Proofs.Grammar.Refusal
import Eligibility.Proofs.Grammar.Nesting
import Eligibility.Proofs.RoundTrip.Writable
import Eligibility.Proofs.RuleTree.Fields
import Eligibility.Proofs.Service.Admission
import Eligibility.Proofs.Catalog.Contents
import Eligibility.Proofs.Catalog.Order
import Eligibility.Proofs.Catalog.Run
import Eligibility.Proofs.Service.FlatRule
import Eligibility.Proofs.Service.Combining
import Eligibility.Proofs.Service.Compiling
import Eligibility.Proofs.Service.Room
import Eligibility.Proofs.Service.Use
import Eligibility.Proofs.CommandLine.ReadBack
import Eligibility.Proofs.Evaluation.Formula
import Eligibility.Proofs.Evaluation.Report
import Eligibility.Proofs.Service.Run
import Eligibility.Proofs.RuleTree.Combination
import Eligibility.Proofs.Service.Agreement
import Eligibility.Proofs.Service.Vetting
import Eligibility.Proofs.Token.Placement
import Eligibility.Proofs.Encoding.Denotation
import Eligibility.Proofs.Encoding.FirstFault
import Eligibility.Proofs.Service.Access
import Eligibility.Proofs.Service.Frame
import Eligibility.Proofs.RoundTrip.Respacing
import Eligibility.Proofs.RoundTrip.Joined
import Eligibility.Proofs.RoundTrip.Parentheses
import Eligibility.Proofs.Evaluation.Rewording
import Eligibility.Proofs.Evaluation.Equality
import Eligibility.Proofs.Evaluation.Missing
import Eligibility.Proofs.Evaluation.Combination
import Eligibility.Proofs.Grammar.Position
import Eligibility.Proofs.Evaluation.Reading
import Eligibility.Proofs.Catalog.Listing
import Eligibility.Proofs.RoundTrip.Obtained
import Eligibility.Proofs.Grammar.Stacks
import Eligibility.Proofs.RoundTrip.Words
import Eligibility.Proofs.Binary64.Layout
import Eligibility.Proofs.Settings.Layers
import Eligibility.Proofs.Grammar.Condition
