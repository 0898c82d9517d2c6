import DesignTokens.Tokenization
import DesignTokens.Source
import DesignTokens.CommandLine.Session
import DesignTokens.Main
import DesignTokens.Sorting.Lemmas
import DesignTokens.Proofs.KeptReferences
import DesignTokens.Proofs.MappedValues
import DesignTokens.Proofs.RuleMatches
import DesignTokens.Proofs.RolePartition
import DesignTokens.Proofs.TokenizationFaults
import DesignTokens.Proofs.DocumentDeclarations
import DesignTokens.Proofs.SelfReferences
import DesignTokens.Proofs.ManifestMaps
import DesignTokens.Proofs.FontSheets
import DesignTokens.Proofs.ConvertedSizes
import DesignTokens.Proofs.IndependentFeatures
import DesignTokens.Proofs.WholeReferences
import DesignTokens.Proofs.KeptImportance
import DesignTokens.Proofs.MergedCandidates
import DesignTokens.Proofs.LonghandReferences
import DesignTokens.Proofs.CalledReferences
import DesignTokens.Proofs.CountedReferences
import DesignTokens.Proofs.StableNames
import DesignTokens.Proofs.FailedSessions
import DesignTokens.Proofs.ConfigFiles
import DesignTokens.Proofs.SimultaneousColors
import DesignTokens.Proofs.DeclarationPieces
import DesignTokens.Proofs.FusedMappings
import DesignTokens.Proofs.FlatConversions
import DesignTokens.Proofs.SimultaneousLiterals
import DesignTokens.Proofs.FilledRoles
import DesignTokens.Proofs.NullSettings
import DesignTokens.Proofs.LayeredSettings
import DesignTokens.Proofs.BalancedCounts
import DesignTokens.Proofs.ReorderedDeclarations
import DesignTokens.Proofs.ColorSyntaxes
import DesignTokens.Proofs.CanonicalColors
import DesignTokens.Proofs.WrittenPages
import DesignTokens.Proofs.NumberedNames
import DesignTokens.Proofs.RestoredSettings
import DesignTokens.Proofs.RoundedDurations
