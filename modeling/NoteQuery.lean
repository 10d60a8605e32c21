import NoteQuery.Keyword.Json
import NoteQuery.Keyword.Occurrence
import NoteQuery.Keyword.Text
import NoteQuery.Proofs.ArgumentList
import NoteQuery.Proofs.Assembly
import NoteQuery.Proofs.BalancedText
import NoteQuery.Proofs.FieldsSeen
import NoteQuery.Proofs.FileTypeChoice
import NoteQuery.Proofs.ForeignValue
import NoteQuery.Proofs.IdentifierSearch
import NoteQuery.Proofs.KeywordSearch
import NoteQuery.Proofs.KnownTags
import NoteQuery.Proofs.FileTypeVariable
import NoteQuery.Proofs.PassThrough
import NoteQuery.Proofs.PatternWords
import NoteQuery.Proofs.QuoteFree
import NoteQuery.Proofs.RepeatedField
import NoteQuery.Proofs.SlugForm
import NoteQuery.Proofs.SortedConjunction
import NoteQuery.Proofs.DaySearch
import NoteQuery.Proofs.WholeKeyword
import NoteQuery.Proofs.WordingSearch
import NoteQuery.Proofs.WrittenConfig
import NoteQuery.Query.Arguments
import NoteQuery.Query.Pattern
import NoteQuery.Regex.Lemmas
import NoteQuery.Regex.Reader
import NoteQuery.Proofs.Reordering
import NoteQuery.Proofs.SettledWords
import NoteQuery.Proofs.RegexReading
import NoteQuery.Proofs.Inlining
import NoteQuery.Proofs.Regrouping
