import TermMarkup.Command
import TermMarkup.Draft
import TermMarkup.Main
import TermMarkup.Proofs.Bare
import TermMarkup.Proofs.Concatenation
import TermMarkup.Proofs.Conversion
import TermMarkup.Proofs.Counts
import TermMarkup.Proofs.Delivery
import TermMarkup.Proofs.Draft
import TermMarkup.Proofs.DraftRendering
import TermMarkup.Proofs.Escaping
import TermMarkup.Proofs.Faults
import TermMarkup.Proofs.Guard
import TermMarkup.Proofs.Inheritance
import TermMarkup.Proofs.Limit
import TermMarkup.Proofs.Lossless
import TermMarkup.Proofs.Names
import TermMarkup.Proofs.Normal
import TermMarkup.Proofs.Painting
import TermMarkup.Proofs.Places
import TermMarkup.Proofs.Records
import TermMarkup.Proofs.Respacing
import TermMarkup.Proofs.Rules
import TermMarkup.Proofs.Sameness
import TermMarkup.Proofs.Shortcodes
import TermMarkup.Proofs.Siblings
import TermMarkup.Proofs.Visible
import TermMarkup.Proofs.Walk
import TermMarkup.Proofs.Yaml.Fuel
import TermMarkup.Raw.Reader
import TermMarkup.Record.Tree
